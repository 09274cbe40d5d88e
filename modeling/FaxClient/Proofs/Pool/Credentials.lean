import FaxClient.Control.Connection
import FaxClient.Proofs.Pool.Masking
import FaxClient.Proofs.Pool.Opening

/-!
# Secrets stay secret

Two pools whose settings differ in their passwords alone cannot be told apart, but by the octets
that a session is sent: whatever happens to both, the same comes of it.  A password decides neither
what a session answers nor, as long as it holds no line end, whether it is sent at all, and no
error has a part of it.  So a session that answers in the same way to both is opened in both with
the same result, or fails to in both for the same reason.
-/

namespace FaxClient

/-! ## What a session answers -/

namespace Control.Connection

/-- A connection over which other octets were sent. -/
def besides (c : Connection) (received : Octets) : Connection := { c with received := received }

theorem look_besides (c : Connection) (received : Octets) :
    (c.besides received).look = match c.look with
      | .found answer c => .found answer (c.besides received)
      | .waiting c => .waiting (c.besides received) := by
  unfold look besides
  dsimp only
  split
  · rfl
  · split
    · rfl
    · cases Reply.read c.buffer with
      | error e => rfl
      | ok found =>
        cases found with
        | some reply => rfl
        | none =>
          dsimp only
          split
          · rfl
          · split <;> rfl

theorem nextFrom_besides (incoming : List Octets) (c : Connection) (received : Octets) :
    nextFrom incoming (c.besides received) =
      ((nextFrom incoming c).1, (nextFrom incoming c).2.besides received) := by
  induction incoming generalizing c with
  | nil =>
    rw [nextFrom, nextFrom, look_besides]
    cases c.look with
    | found answer d => rfl
    | waiting d =>
      have hlast := look_besides { d with fresh := true, ended := true } received
      cases hended : d.ended with
      | true => simp [besides, hended]
      | false =>
        simp only [besides] at hlast
        simp only [besides, hended, Bool.false_eq_true, if_false, hlast]
        cases look { d with fresh := true, ended := true } <;> rfl
  | cons chunk rest ih =>
    rw [nextFrom, nextFrom, look_besides]
    cases c.look with
    | found answer d => rfl
    | waiting d => exact ih { d with buffer := d.buffer ++ chunk, fresh := true, ended := false }

/-- What is read does not depend on what was sent. -/
theorem read_besides (c : Connection) (received : Octets) :
    read (c.besides received) = ((read c).1, (read c).2.besides received) := by
  have hnext := nextFrom_besides c.incoming c received
  unfold read next
  rw [show (c.besides received).incoming = c.incoming from rfl, hnext]
  rcases nextFrom c.incoming c with ⟨answer, d⟩
  have hfail (e : ExchangeError) : (fail e (d.besides received) : Except ExchangeError Reply × _) =
      ((fail e d : Except ExchangeError Reply × _).1,
        (fail e d : Except ExchangeError Reply × _).2.besides received) := by
    unfold fail note
    split <;> rfl
  cases answer with
  | none => exact hfail .closed
  | some answer =>
    cases answer with
    | error e => exact hfail e
    | ok r =>
      dsimp only
      split <;> rfl

/-- Two connections that are the same but for the octets sent over them. -/
def Alike (c c' : Connection) : Prop := ∃ received, c' = c.besides received

theorem Alike.refl (c : Connection) : c.Alike c := ⟨c.received, rfl⟩

end Control.Connection

/-- Two commands that a session answers alike. -/
structure Command.Alike (c c' : Command) : Prop where
  masked_eq : c.masked = c'.masked
  isSendable_eq : c.isSendable = c'.isSendable

theorem Command.verb_masked (c : Command) : c.masked.verb = c.verb := by
  unfold masked
  split <;> rfl

theorem Command.Alike.verb_eq {c c' : Command} (h : c.Alike c') : c.verb = c'.verb := by
  rw [← c.verb_masked, h.masked_eq, c'.verb_masked]

namespace Control.Connection

variable {c c' : Connection}

theorem request_alike {command command' : Command} (hcommand : command.Alike command')
    (h : c.Alike c') :
    (request command' c').1 = (request command c).1 ∧
      (request command c).2.Alike (request command' c').2 := by
  obtain ⟨received, rfl⟩ := h
  have hopen : (c.besides received).isOpen = c.isOpen := rfl
  unfold request Command.encode
  rw [hopen, ← hcommand.isSendable_eq, ← hcommand.verb_eq]
  cases c.isOpen with
  | false => exact ⟨rfl, received, rfl⟩
  | true =>
    cases command.isSendable with
    | false => exact ⟨rfl, received, by simp [fail, note, besides, ExchangeError.isFatal]⟩
    | true =>
      have hread := read_besides (c.deliver command.line) (received ++ command'.line)
      have hdeliver : (c.besides received).deliver command'.line =
          (c.deliver command.line).besides (received ++ command'.line) := rfl
      simp only [not_true_eq_false, if_false, if_true, hdeliver, hread, true_and]
      exact ⟨_, rfl⟩

theorem close_alike (h : c.Alike c') :
    (close c').1 = (close c).1 ∧ (close c).2.Alike (close c').2 := by
  have hquit : Command.Alike ⟨"QUIT", none⟩ ⟨"QUIT", none⟩ := ⟨rfl, rfl⟩
  obtain ⟨hanswer, received', hafter⟩ := request_alike hquit h
  obtain ⟨received, rfl⟩ := h
  have hopen : (c.besides received).isOpen = c.isOpen := rfl
  unfold close
  rw [hopen]
  cases c.isOpen with
  | false => exact ⟨rfl, received, rfl⟩
  | true =>
    have hrequest : request ⟨"QUIT", none⟩ (c.besides received) =
        ((request ⟨"QUIT", none⟩ c).1, (request ⟨"QUIT", none⟩ c).2.besides received') :=
      Prod.ext hanswer hafter
    rw [hrequest]
    rcases request ⟨"QUIT", none⟩ c with ⟨answer, d⟩
    cases answer <;> exact ⟨rfl, received', rfl⟩

end Control.Connection

namespace Pool

/-! ## Settings and requests without their secrets -/

/-- A text that holds no line end. -/
def IsPlain (text : String) : Prop := '\r' ∉ text.toList ∧ '\n' ∉ text.toList

theorem IsPlain.any_isLineEnd {text : String} (h : IsPlain text) :
    text.toList.any Command.isLineEnd = false := by
  rw [List.any_eq_false]
  intro c hc hend
  rcases (by simpa [Command.isLineEnd] using hend : c = '\r' ∨ c = '\n') with rfl | rfl
  · exact h.1 hc
  · exact h.2 hc

namespace Settings

/-- Settings that differ at most in what their passwords are. -/
structure Alike (s s' : Settings) : Prop where
  password_isSome_eq : s.password.isSome = s'.password.isSome
  adminPassword_isSome_eq : s.adminPassword.isSome = s'.adminPassword.isSome
  rest_eq : { s with password := none, adminPassword := none } =
    { s' with password := none, adminPassword := none }

/-- Settings whose passwords hold no line end. -/
structure Plain (s : Settings) : Prop where
  password : ∀ password ∈ s.password, IsPlain password
  adminPassword : ∀ password ∈ s.adminPassword, IsPlain password

theorem Alike.masked_eq {s s' : Settings} (h : s.Alike s') : s.masked = s'.masked := by
  have hmask {o o' : Option String} (hsome : o.isSome = o'.isSome) :
      o.map (fun _ => mask) = o'.map fun _ => mask := by
    cases o <;> cases o' <;> simp_all
  obtain ⟨hpassword, hadmin, hrest⟩ := h
  cases s
  cases s'
  simp_all [masked, hmask hpassword, hmask hadmin]

end Settings

namespace Login

def Plain : Login → Prop
  | .pass password | .admin password => IsPlain password
  | .user _ | .tzone _ => True

theorem plain_requests {s : Settings} (h : s.Plain) : ∀ r ∈ requests s, r.Plain := by
  intro r hr
  simp only [requests, List.mem_append, Option.mem_toList, Option.map_eq_some_iff] at hr
  rcases hr with (⟨name, -, rfl⟩ | ⟨password, hpassword, rfl⟩) | ⟨zone, -, rfl⟩
  · trivial
  · exact h.adminPassword password hpassword
  · trivial

theorem plain_next {s : Settings} (h : s.Plain) {request : Login} {rest rest' : List Login}
    {reply : Reply} (hrest : ∀ r ∈ rest, r.Plain) (hnext : next s request rest reply = .ok rest') :
    ∀ r ∈ rest', r.Plain := by
  unfold next at hnext
  cases hreply : reply.expect request.accepted with
  | error e => simp [hreply, bind, Except.bind] at hnext
  | ok reply' =>
    simp only [hreply, bind, Except.bind] at hnext
    split at hnext
    · split at hnext
      · split at hnext
        · next password hpassword =>
          obtain rfl : pass password :: rest = rest' := Except.ok.inj hnext
          exact List.forall_mem_cons.mpr ⟨h.password password hpassword, hrest⟩
        · simp at hnext
      · obtain rfl : rest = rest' := Except.ok.inj hnext
        exact hrest
    · obtain rfl : rest = rest' := Except.ok.inj hnext
      exact hrest

theorem isSendable_of_plain {r : Login} (h : r.Plain) (hsecret : r.command.isSecret = true) :
    r.command.isSendable = true := by
  cases r with
  | pass password =>
    simpa [command, Command.isSendable, Text.isBlank] using IsPlain.any_isLineEnd h
  | admin password =>
    simpa [command, Command.isSendable, Text.isBlank] using IsPlain.any_isLineEnd h
  | _ => simp [command, Command.isSecret] at hsecret

theorem command_alike {r r' : Login} (hmasked : r.masked = r'.masked) (h : r.Plain)
    (h' : r'.Plain) : r.command.Alike r'.command := by
  have hcommand : r.command.masked = r'.command.masked := by
    rw [← command_masked, ← command_masked, hmasked]
  have hverb : r.command.verb = r'.command.verb := by
    rw [← Command.verb_masked, hcommand, Command.verb_masked]
  have hsame : r'.command.isSecret = r.command.isSecret := by
    rw [Command.isSecret, Command.isSecret, hverb]
  refine ⟨hcommand, ?_⟩
  by_cases hsecret : r.command.isSecret = true
  · rw [isSendable_of_plain h hsecret, isSendable_of_plain h' (hsame.trans hsecret)]
  · rw [Command.masked, if_neg hsecret, Command.masked, if_neg (hsame ▸ hsecret)] at hcommand
    rw [hcommand]

end Login

/-- A creation whose requests to come hold no line end in their secrets. -/
def Creation.Plain : Creation → Prop
  | .loggingIn _ request rest => ∀ r ∈ request :: rest, r.Plain
  | .connecting _ | .closing .. | .ended _ => True

theorem plain_loginWith (m : Member) {rest : List Login} (h : ∀ r ∈ rest, r.Plain) :
    (Task.loginWith m rest).Plain := by
  cases rest with
  | nil => trivial
  | cons request rest => exact h

theorem plain_onwards {s : Settings} (h : s.Plain) (now : Time) (m : Member) (request : Login)
    {rest : List Login} (hrest : ∀ r ∈ rest, r.Plain) (r : Except ExchangeError Reply) :
    (Creation.onwards s now m request rest r).Plain := by
  unfold Creation.onwards
  split
  · next rest' hnext =>
    cases r with
    | error e => simp [Except.bind] at hnext
    | ok reply => exact plain_loginWith m (Login.plain_next h hrest hnext)
  · trivial

/-! ## Two talks -/

namespace Talk

open Control (Connection)

variable {s s' : Settings} {t : TaskId} {k k' next : Talk Connection} {errand : Errand}

/-- Two pools that are the same but for their secrets, each with a task that talks to a session. -/
structure Alike (t : TaskId) (k k' : Talk Connection) : Prop where
  masked_eq : k.world.masked = k'.world.masked
  session : k.session.Alike k'.session
  plain : ∃ errand c, k.world.task? t = some ⟨errand, .creating c⟩ ∧ c.Plain
  plain' : ∃ errand c, k'.world.task? t = some ⟨errand, .creating c⟩ ∧ c.Plain

theorem Alike.task (h : Alike t k k') {c : Creation}
    (htask : k.world.task? t = some ⟨errand, .creating c⟩) :
    ∃ c', k'.world.task? t = some ⟨errand, .creating c'⟩ ∧ c'.masked = c.masked ∧
      c.Plain ∧ c'.Plain := by
  obtain ⟨errand₀, c₀, htask₀, hplain⟩ := h.plain
  obtain ⟨errand', c', htask', hplain'⟩ := h.plain'
  obtain ⟨rfl, rfl⟩ : errand = errand₀ ∧ c = c₀ := by simpa [htask₀, eq_comm] using htask
  have hmasked := World.task?_congr h.masked_eq t
  simp only [htask, htask', Option.map_some, Option.some.injEq, Task.masked, Doing.masked,
    Task.mk.injEq, Doing.creating.injEq] at hmasked
  obtain ⟨rfl, hc⟩ := hmasked
  exact ⟨c', htask', hc.symm, hplain, hplain'⟩

/-- What both hear is the same, and they are alike again. -/
theorem Alike.hears (hs : s.Alike s') (h : Alike t k k') {signal : Signal} {c c' : Creation}
    {last last' session session' : _} (hk : k.Hears s t signal session ⟨errand, .creating c⟩ last)
    (hk' : k'.Hears s' t signal session' ⟨errand, .creating c'⟩ last')
    (hsession : session.Alike session') (hplain : c.Plain) (hplain' : c'.Plain) :
    Alike t last last' where
  masked_eq := by
    have hact := World.advance_congr hs.masked_eq h.masked_eq t signal
    simpa [hk.act_eq, hk'.act_eq] using hact
  session := by rwa [hk.session_eq, hk'.session_eq]
  plain := ⟨_, _, hk.task_eq, hplain⟩
  plain' := ⟨_, _, hk'.task_eq, hplain'⟩

theorem Alike.turn (hs : s.Alike s') (hplain : s.Plain) (hplain' : s'.Plain) (h : Alike t k k')
    (hturn : k.turn s t = some next) : ∃ next', k'.turn s' t = some next' ∧ Alike t next next' := by
  obtain ⟨errand, c, htask, -⟩ := h.plain
  obtain ⟨c', htask', hmasked, hc, hc'⟩ := h.task htask
  cases c with
  | connecting id => simp [Talk.turn, htask, Task.query?, Query.answer?] at hturn
  | ended result => simp [Talk.turn, htask, Task.query?] at hturn
  | closing m e limit =>
    obtain rfl : c' = .closing m e limit := by cases c' <;> simp_all [Creation.masked]
    obtain ⟨last, hears⟩ := hears_closing (s := s) htask
    obtain ⟨last', hears'⟩ := hears_closing (s := s') htask'
    obtain rfl : last = next := by simpa [hears.turn_eq] using hturn
    obtain ⟨hanswer, hsession⟩ := Connection.close_alike h.session
    have hanswer' : (Control.close k'.session).1 = (Control.close k.session).1 := hanswer
    rw [hanswer'] at hears'
    exact ⟨last', hears'.turn_eq, h.hears hs hears hears' hsession trivial trivial⟩
  | loggingIn m request rest =>
    obtain ⟨request', rest', rfl, hrequest⟩ :
        ∃ request' rest', c' = .loggingIn m request' rest' ∧ request.masked = request'.masked := by
      cases c' <;> simp_all [Creation.masked]
    obtain ⟨last, hears⟩ := hears_loggingIn (s := s) htask
    obtain ⟨last', hears'⟩ := hears_loggingIn (s := s') htask'
    obtain rfl : last = next := by simpa [hears.turn_eq] using hturn
    obtain ⟨hhead, hrest⟩ := List.forall_mem_cons.mp hc
    obtain ⟨hhead', hrest'⟩ := List.forall_mem_cons.mp hc'
    obtain ⟨hanswer, hsession⟩ :=
      Connection.request_alike (Login.command_alike hrequest hhead hhead') h.session
    have hanswer' : (Control.request request'.command k'.session).1 =
      (Control.request request.command k.session).1 := hanswer
    rw [hanswer'] at hears'
    exact ⟨last', hears'.turn_eq, h.hears hs hears hears' hsession
      (plain_onwards hplain _ m request hrest _) (plain_onwards hplain' _ m request' hrest' _)⟩

theorem Alike.turns (hs : s.Alike s') (hplain : s.Plain) (hplain' : s'.Plain) (h : Alike t k k')
    {n : ℕ} (hturns : k.turns s t n = some next) :
    ∃ next', k'.turns s' t n = some next' ∧ Alike t next next' := by
  induction n generalizing k k' with
  | zero =>
    obtain rfl : k = next := Option.some.inj hturns
    exact ⟨k', rfl, h⟩
  | succ n ih =>
    rw [Talk.turns, Option.bind_eq_some_iff] at hturns
    obtain ⟨mid, hmid, hturns⟩ := hturns
    obtain ⟨mid', hmid', halike⟩ := h.turn hs hplain hplain' hmid
    obtain ⟨next', hnext', hlast⟩ := ih halike hturns
    exact ⟨next', by rw [Talk.turns, hmid', Option.bind_some, hnext'], hlast⟩

end Talk

/-! ## What there is to see -/

/-- Queries that read the same where they are displayed. -/
inductive Query.LooksLike : Query → Query → Prop
  | refl (q : Query) : LooksLike q q
  | send (line : Line) {c c' : Command} (h : c.display = c'.display) :
    LooksLike (.send line c) (.send line c')

theorem Query.looksLike_of_masked_eq {q q' : Query} (h : q.masked = q'.masked) :
    q.LooksLike q' := by
  cases q with
  | send line c =>
    cases q' with
    | send line' c' =>
      obtain ⟨rfl, hc⟩ := Query.send.inj h
      exact .send line (by rw [← c.display_masked, hc, c'.display_masked])
    | _ => simp [masked] at h
  | _ =>
    cases q' with
    | send line' c' => simp [masked] at h
    | _ =>
      dsimp only [masked] at h
      rw [h]
      exact .refl _

namespace World

/-- Two pools in which the same has happened, and the same sessions were asked the same, as far as
it can be seen. -/
structure LooksLike (w w' : World) : Prop where
  now_eq : w.now = w'.now
  ledger_eq : w.ledger = w'.ledger
  bell_eq : w.bell = w'.bell
  finished_eq : w.finished = w'.finished
  held_eq : w.held = w'.held
  lines_eq : w.lines = w'.lines
  dead_eq : w.dead = w'.dead
  /-- The same creations have ended, with the same members or the same errors. -/
  ended_iff : ∀ t errand result, w.task? t = some ⟨errand, .creating (.ended result)⟩ ↔
    w'.task? t = some ⟨errand, .creating (.ended result)⟩
  asked : List.Forall₂ Query.LooksLike w.asked w'.asked

variable {s s' : Settings} {w w' : World}

/-- A creation that is not logging in has no secret. -/
theorem creating_of_masked_eq (h : w.masked = w'.masked) {t : TaskId} {errand : Errand}
    {c : Creation} (hc : ∀ m request rest, c ≠ .loggingIn m request rest)
    (htask : w.task? t = some ⟨errand, .creating c⟩) :
    w'.task? t = some ⟨errand, .creating c⟩ := by
  have hmasked := task?_congr h t
  rw [htask, Option.map_some, eq_comm, Option.map_eq_some_iff] at hmasked
  obtain ⟨⟨errand', doing⟩, htask', hmasked⟩ := hmasked
  obtain ⟨rfl, hdoing⟩ := Task.mk.inj hmasked
  cases doing with
  | creating c' =>
    have hcreating : c'.masked = c.masked := Doing.creating.inj hdoing
    cases c' <;> cases c <;> simp_all [Creation.masked]
  | _ => simp [Doing.masked] at hdoing

theorem ended_of_masked_eq (h : w.masked = w'.masked) {t : TaskId} {errand : Errand}
    {result : Except ExchangeError Member}
    (htask : w.task? t = some ⟨errand, .creating (.ended result)⟩) :
    w'.task? t = some ⟨errand, .creating (.ended result)⟩ :=
  creating_of_masked_eq h (by simp) htask

theorem looksLike_of_masked_eq (h : w.masked = w'.masked) : w.LooksLike w' where
  now_eq := (World.mk.inj h).1
  ledger_eq := (World.mk.inj h).2.1
  bell_eq := (World.mk.inj h).2.2.1
  finished_eq := (World.mk.inj h).2.2.2.2.1
  held_eq := (World.mk.inj h).2.2.2.2.2.1
  lines_eq := (World.mk.inj h).2.2.2.2.2.2.1
  dead_eq := (World.mk.inj h).2.2.2.2.2.2.2.1
  ended_iff _ _ _ := ⟨ended_of_masked_eq h, ended_of_masked_eq h.symm⟩
  asked := by
    have hasked : w.asked.map Query.masked = w'.asked.map Query.masked :=
      (World.mk.inj h).2.2.2.2.2.2.2.2
    have hall : List.Forall₂ (fun q q' => q.masked = q'.masked) w.asked w'.asked := by
      have heq : List.Forall₂ Eq (w.asked.map Query.masked) (w'.asked.map Query.masked) :=
        hasked ▸ List.forall₂_refl _
      exact List.forall₂_map_left_iff.mp (List.forall₂_map_right_iff.mp heq)
    exact hall.imp fun _ _ => Query.looksLike_of_masked_eq

end World

/-- A creation is connected to its session, and they take a number of turns. -/
def Talk.opens {σ : Type} [Control σ] (s : Settings) (t : TaskId) (line : Line) (n : ℕ)
    (k : Talk σ) : Option (Talk σ) :=
  (k.world.act s (.advance t (.connected line))).bind fun w => turns s t n ⟨w, k.session⟩

/-- What two settings do not tell of their secrets. -/
structure SecretsKept (s s' : Settings) : Prop where
  display_eq : s.display = s'.display
  /-- Whatever happens to both pools, every answer and every error of a session included, they
  look alike. -/
  run : ∀ actions, Option.Rel World.LooksLike (World.run s .start actions)
    (World.run s' .start actions)
  /-- A session that is opened over the same connection is opened with the same result. -/
  opens : ∀ actions w w' t errand id line (c : Control.Connection),
    World.run s .start actions = some w → World.run s' .start actions = some w' →
    w.task? t = some ⟨errand, .creating (.connecting id)⟩ → line ∉ w.lines →
    ∃ n result k k', Talk.opens s t line n ⟨w, c⟩ = some k ∧
      Talk.opens s' t line n ⟨w', c⟩ = some k' ∧
      k.world.task? t = some ⟨errand, .creating (.ended result)⟩ ∧
      k'.world.task? t = some ⟨errand, .creating (.ended result)⟩ ∧
      k.world.LooksLike k'.world ∧ k.session.Alike k'.session

section

variable {s s' : Settings}

theorem run_masked_eq (h : s.Alike s') {actions : List Action} {w w' : World}
    (hrun : World.run s .start actions = some w) (hrun' : World.run s' .start actions = some w') :
    w.masked = w'.masked := by
  have hcongr := World.run_congr (w := .start) h.masked_eq rfl actions
  simpa [hrun, hrun'] using hcongr

theorem rel_run (h : s.Alike s') (actions : List Action) :
    Option.Rel World.LooksLike (World.run s .start actions) (World.run s' .start actions) := by
  have hcongr := World.run_congr (w := .start) h.masked_eq rfl actions
  cases hrun : World.run s .start actions with
  | none =>
    obtain hrun' : World.run s' .start actions = none := by simpa [hrun] using hcongr.symm
    rw [hrun']
    exact .none
  | some w =>
    rw [hrun, Option.map_some, eq_comm, Option.map_eq_some_iff] at hcongr
    obtain ⟨w', hrun', hmasked⟩ := hcongr
    rw [hrun']
    exact .some (World.looksLike_of_masked_eq hmasked.symm)

/-- A creation that connects goes on to log in. -/
theorem connected {w : World} {t : TaskId} {errand : Errand} {id : MemberId} {line : Line}
    (htask : w.task? t = some ⟨errand, .creating (.connecting id)⟩) (hline : line ∉ w.lines) :
    ∃ v, w.act s (.advance t (.connected line)) = some v ∧
      v.task? t = some ⟨errand, .creating
        (Task.loginWith ⟨id, line, false, true⟩ (Login.requests s))⟩ := by
  have hadmits : w.admits t (.connected line) = true := by simp [World.admits, hline]
  have hact := World.act_advance_eq (s := s) htask hadmits rfl
  exact ⟨_, hact, World.task?_after_running htask (.connected line) rfl (by simp)⟩

/-- Whoever sees all of two pools but the octets that their sessions are sent, the requests and the
errors in their displayed form, cannot tell which passwords they log in with. -/
theorem secrets_kept (h : s.Alike s') (hs : s.Plain) (hs' : s'.Plain) : SecretsKept s s' where
  display_eq := by rw [← s.display_masked, h.masked_eq, s'.display_masked]
  run := rel_run h
  opens := by
    intro actions w w' t errand id line c hrun hrun' htask hline
    have hmasked := run_masked_eq h hrun hrun'
    have htask' : w'.task? t = some ⟨errand, .creating (.connecting id)⟩ :=
      World.creating_of_masked_eq hmasked (by simp) htask
    have hline' : line ∉ w'.lines := by
      rwa [← (World.looksLike_of_masked_eq hmasked).lines_eq]
    obtain ⟨v, hact, hv⟩ := connected (s := s) htask hline
    obtain ⟨v', hact', hv'⟩ := connected (s := s') htask' hline'
    have halike : Talk.Alike t ⟨v, c⟩ ⟨v', c⟩ := by
      refine ⟨?_, .refl c, ⟨_, _, hv, plain_loginWith _ (Login.plain_requests hs)⟩,
        ⟨_, _, hv', plain_loginWith _ (Login.plain_requests hs')⟩⟩
      have hcongr := World.advance_congr h.masked_eq hmasked t (.connected line)
      simpa [hact, hact'] using hcongr
    obtain ⟨n, k, result, hturns, hended⟩ :=
      Talk.exists_ended (s := s) ⟨v, c⟩ (isConnected_loginWith _ _) hv
    obtain ⟨k', hturns', hlast⟩ := halike.turns h hs hs' hturns
    exact ⟨n, result, k, k', by simp [Talk.opens, hact, hturns],
      by simp [Talk.opens, hact', hturns'], hended, World.ended_of_masked_eq hlast.masked_eq hended,
      World.looksLike_of_masked_eq hlast.masked_eq, hlast.session⟩

end

def guarded (password adminPassword : String) : Settings :=
  { Settings.default with
    username := some "fax"
    password := some password
    adminPassword := some adminPassword }

theorem secrets_kept_swapped : guarded "deposit" "ladder" ≠ guarded "ladder" "deposit" ∧
    SecretsKept (guarded "deposit" "ladder") (guarded "ladder" "deposit") := by
  have hplain : IsPlain "deposit" ∧ IsPlain "ladder" := by
    constructor <;> simp [IsPlain]
  refine ⟨by decide, secrets_kept ⟨rfl, rfl, rfl⟩ ?_ ?_⟩
  · constructor <;> simp [guarded, hplain]
  · constructor <;> simp [guarded, hplain]

end Pool

end FaxClient
