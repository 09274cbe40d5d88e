import FaxClient.Event.Listeners
import Mathlib

/-!
# Traces of emissions

A trace says when emissions begin and end, to whom they deliver, and who joins and leaves the
registries meanwhile.  Emissions go by numbers, in the order in which they begin.

A trace is read with a stack of frames, one for each emission that is not over: it holds the
listeners that still wait for the event.  Whoever is registered when an emission begins waits in its
frame, and only the emission on top of the stack delivers.  This is all that is asked of a trace
that can be read, and from it follows what every emission delivers and when.
-/

namespace FaxClient

namespace Listeners

variable {l l' : Listeners} {h : Subscription}

theorem of_subscribe (l : Listeners) (r q : Registry) :
    (l.subscribe r).2.of q = l.of q ++ if r = q then [⟨l.next⟩] else [] := by
  by_cases hrq : r = q
  · subst hrq
    have hallocate : l.allocate.2.of r = l.of r := by cases r <;> rfl
    simp [subscribe, register, allocate, ← hallocate]
  · have hallocate : l.allocate.2.of q = l.of q := by cases q <;> rfl
    have hother : q ≠ r := fun heq => hrq heq.symm
    simp [subscribe, register, of_set_ne _ hother, hrq, hallocate]

theorem next_subscribe (l : Listeners) (r : Registry) : (l.subscribe r).2.next = l.next + 1 := by
  cases r <;> rfl

theorem unsubscribe_eq_true (hleft : l.unsubscribe h = (true, l')) :
    h ∈ l.connection ∧ l' = { l with connection := l.connection.erase h } ∨
      h ∉ l.connection ∧ h ∈ l.transfer ∧ l' = { l with transfer := l.transfer.erase h } := by
  by_cases hconnection : h ∈ l.connection
  · left
    simpa [unsubscribe, remove, of, set, hconnection, eq_comm] using hleft
  · right
    by_cases htransfer : h ∈ l.transfer
    · simpa [unsubscribe, remove, of, set, hconnection, htransfer, eq_comm] using hleft
    · simp [unsubscribe, remove, of, hconnection, htransfer] at hleft

theorem unsubscribe_eq_false (hleft : l.unsubscribe h = (false, l')) : l' = l := by
  by_cases hconnection : h ∈ l.connection
  · simp [unsubscribe, remove, of, hconnection] at hleft
  · by_cases htransfer : h ∈ l.transfer
    · simp [unsubscribe, remove, of, hconnection, htransfer] at hleft
    · simpa [unsubscribe, remove, of, hconnection, htransfer, eq_comm] using hleft

theorem next_unsubscribe (hleft : l.unsubscribe h = (true, l')) : l'.next = l.next := by
  rcases unsubscribe_eq_true hleft with ⟨-, rfl⟩ | ⟨-, -, rfl⟩ <;> rfl

/-- A handle that is not in both registries leaves the one that it is in. -/
theorem of_unsubscribe (hleft : l.unsubscribe h = (true, l'))
    (hapart : h ∈ l.of .connection → h ∉ l.of .transfer) (r : Registry) :
    l'.of r = (l.of r).erase h := by
  rcases unsubscribe_eq_true hleft with ⟨hmem, rfl⟩ | ⟨hnotMem, -, rfl⟩
  · cases r with
    | connection => rfl
    | transfer => exact (List.erase_of_not_mem (hapart hmem)).symm
  · cases r with
    | connection => exact (List.erase_of_not_mem hnotMem).symm
    | transfer => rfl

theorem mem_of_unsubscribe (hleft : l.unsubscribe h = (true, l')) : ∃ r, h ∈ l.of r := by
  rcases unsubscribe_eq_true hleft with ⟨hmem, -⟩ | ⟨-, hmem, -⟩
  · exact ⟨.connection, hmem⟩
  · exact ⟨.transfer, hmem⟩

/-- A handle is found exactly if it is registered. -/
theorem unsubscribe_fst_iff (l : Listeners) (h : Subscription) :
    (l.unsubscribe h).1 = true ↔ ∃ r, h ∈ l.of r := by
  constructor
  · intro hfound
    exact mem_of_unsubscribe (Prod.ext hfound rfl)
  · rintro ⟨r, hmem⟩
    by_cases hconnection : h ∈ l.connection
    · simp [unsubscribe, remove, of, hconnection]
    · have htransfer : h ∈ l.transfer := by
        cases r with
        | connection => exact absurd hmem hconnection
        | transfer => exact hmem
      simp [unsubscribe, remove, of, hconnection, htransfer]

end Listeners

namespace Event.Script

inductive Mark where
  | begun (n : ℕ) (event : Event)
  /-- A delivery of the emission with this number, and what the listener calls itself. -/
  | delivered (n : ℕ) (listener : Subscription) (name : String) (event : Event)
  | ended (n : ℕ)
  | joined (listener : Subscription) (registry : Registry)
  | left (listener : Subscription)
  deriving DecidableEq

namespace Mark

def delivery? (n : ℕ) : Mark → Option (Subscription × Event)
  | delivered m h _ e => if m = n then some (h, e) else none
  | _ => none

/-- What a delivery shows of itself. -/
def shown? : Mark → Option (String × Event)
  | delivered _ _ name e => some (name, e)
  | _ => none

def begun? : Mark → Option ℕ
  | begun n _ => some n
  | _ => none

def joined? : Mark → Option (Subscription × Registry)
  | joined h r => some (h, r)
  | _ => none

def left? : Mark → Option Subscription
  | left h => some h
  | _ => none

end Mark

variable {trace before after : List Mark}

/-- What the emission with this number delivers, in order. -/
def deliveries (n : ℕ) (trace : List Mark) : List (Subscription × Event) :=
  trace.filterMap (Mark.delivery? n)

def emissions (trace : List Mark) : List ℕ := trace.filterMap Mark.begun?

def joiners (trace : List Mark) : List (Subscription × Registry) := trace.filterMap Mark.joined?

def leavers (trace : List Mark) : List Subscription := trace.filterMap Mark.left?

/-- Those who have joined a registry, in that order, and have not left. -/
def registered (r : Registry) (trace : List Mark) : List Subscription :=
  ((joiners trace).filterMap fun p => if p.2 = r then some p.1 else none).filter
    fun h => h ∉ leavers trace

theorem deliveries_append (n : ℕ) (xs ys : List Mark) :
    deliveries n (xs ++ ys) = deliveries n xs ++ deliveries n ys := List.filterMap_append

theorem emissions_append (xs ys : List Mark) :
    emissions (xs ++ ys) = emissions xs ++ emissions ys := List.filterMap_append

theorem joiners_append (xs ys : List Mark) :
    joiners (xs ++ ys) = joiners xs ++ joiners ys := List.filterMap_append

theorem leavers_append (xs ys : List Mark) :
    leavers (xs ++ ys) = leavers xs ++ leavers ys := List.filterMap_append

/-! ## Reading a trace -/

/-- An emission that is not over, and those who wait for its event. -/
structure Frame where
  number : ℕ
  event : Event
  waiting : List Subscription

structure Status where
  /-- How many emissions have begun. -/
  begun : ℕ
  listeners : Listeners
  /-- The emissions that are not over, the innermost first. -/
  frames : List Frame

namespace Status

def start : Status := ⟨0, .empty, []⟩

inductive Reads : Status → Mark → Status → Prop
  /-- Whoever is registered now waits for the event. -/
  | begun (k : ℕ) (l : Listeners) (frames : List Frame) (e : Event) :
      Reads ⟨k, l, frames⟩ (.begun k e) ⟨k + 1, l, ⟨k, e, l.recipients e⟩ :: frames⟩
  | delivered (k : ℕ) (l : Listeners) (frames : List Frame) (n : ℕ) (e : Event) (h : Subscription)
      (name : String) (waiting : List Subscription) :
      Reads ⟨k, l, ⟨n, e, h :: waiting⟩ :: frames⟩ (.delivered n h name e)
        ⟨k, l, ⟨n, e, waiting⟩ :: frames⟩
  | ended (k : ℕ) (l : Listeners) (frames : List Frame) (n : ℕ) (e : Event) :
      Reads ⟨k, l, ⟨n, e, []⟩ :: frames⟩ (.ended n) ⟨k, l, frames⟩
  | joined (k : ℕ) (l : Listeners) (frames : List Frame) (r : Registry) :
      Reads ⟨k, l, frames⟩ (.joined ⟨l.next⟩ r) ⟨k, (l.subscribe r).2, frames⟩
  | left (k : ℕ) (l l' : Listeners) (frames : List Frame) (h : Subscription)
      (hleft : l.unsubscribe h = (true, l')) :
      Reads ⟨k, l, frames⟩ (.left h) ⟨k, l', frames⟩

inductive ReadsAll : Status → List Mark → Status → Prop
  | nil (σ : Status) : ReadsAll σ [] σ
  | cons {σ υ τ : Status} {mark : Mark} {marks : List Mark} (hmark : σ.Reads mark υ)
      (hmarks : ReadsAll υ marks τ) : ReadsAll σ (mark :: marks) τ

variable {σ υ τ : Status} {mark : Mark} {marks marks' : List Mark}

theorem readsAll_append_iff :
    σ.ReadsAll (marks ++ marks') τ ↔ ∃ υ, σ.ReadsAll marks υ ∧ υ.ReadsAll marks' τ := by
  constructor
  · intro h
    induction marks generalizing σ with
    | nil => exact ⟨σ, .nil σ, h⟩
    | cons mark marks ih =>
      cases h with
      | cons hmark hmarks =>
        obtain ⟨υ, hfirst, hrest⟩ := ih hmarks
        exact ⟨υ, .cons hmark hfirst, hrest⟩
  · rintro ⟨υ, hfirst, hrest⟩
    induction hfirst with
    | nil => exact hrest
    | cons hmark _ ih => exact .cons hmark (ih hrest)

theorem ReadsAll.snoc (h : σ.ReadsAll marks υ) (hmark : υ.Reads mark τ) :
    σ.ReadsAll (marks ++ [mark]) τ :=
  readsAll_append_iff.mpr ⟨υ, h, .cons hmark (.nil τ)⟩

/-- What is read before, at and after a mark. -/
theorem ReadsAll.split (h : σ.ReadsAll (marks ++ mark :: marks') τ) :
    ∃ υ υ', σ.ReadsAll marks υ ∧ υ.Reads mark υ' ∧ υ'.ReadsAll marks' τ := by
  obtain ⟨υ, hfirst, hrest⟩ := readsAll_append_iff.mp h
  cases hrest with
  | cons hmark hmarks => exact ⟨υ, _, hfirst, hmark, hmarks⟩

/-! ## Frames -/

/-- Inner emissions have begun later than outer ones. -/
def Ordered (σ : Status) : Prop :=
  (σ.begun :: σ.frames.map (·.number)).Pairwise (· > ·)

theorem ordered_start : start.Ordered := List.pairwise_singleton _ _

theorem Ordered.lt_begun (h : σ.Ordered) {frame : Frame} (hframe : frame ∈ σ.frames) :
    frame.number < σ.begun :=
  (List.pairwise_cons.mp h).1 _ (List.mem_map_of_mem hframe)

theorem Ordered.lt_top {k : ℕ} {l : Listeners} {top frame : Frame} {frames : List Frame}
    (h : Ordered ⟨k, l, top :: frames⟩) (hframe : frame ∈ frames) : frame.number < top.number :=
  (List.pairwise_cons.mp (List.pairwise_cons.mp h).2).1 _ (List.mem_map_of_mem hframe)

theorem Ordered.reads (hmark : σ.Reads mark τ) (h : σ.Ordered) : τ.Ordered := by
  cases hmark with
  | begun k l frames e =>
    refine List.pairwise_cons.mpr ⟨fun n hn => ?_, h⟩
    rcases List.mem_cons.mp hn with rfl | hn
    · exact Nat.lt_succ_self n
    · exact Nat.lt_succ_of_lt ((List.pairwise_cons.mp h).1 n hn)
  | delivered k l frames n e h' name waiting => exact h
  | ended k l frames n e =>
    obtain ⟨hlast, hframes⟩ := List.pairwise_cons.mp h
    refine List.pairwise_cons.mpr ⟨fun m hm => hlast m (List.mem_cons_of_mem n hm), ?_⟩
    exact (List.pairwise_cons.mp hframes).2
  | joined k l frames r => exact h
  | left k l l' frames h' hleft => exact h

theorem Ordered.readsAll (hmarks : σ.ReadsAll marks τ) (h : σ.Ordered) : τ.Ordered := by
  induction hmarks with
  | nil => exact h
  | cons hmark _ ih => exact ih (h.reads hmark)

theorem emissions_readsAll (h : σ.ReadsAll marks τ) :
    emissions marks = List.range' σ.begun (τ.begun - σ.begun) ∧
      σ.begun ≤ τ.begun := by
  induction h with
  | nil => simp [emissions]
  | @cons σ υ τ mark marks hmark _ ih =>
    obtain ⟨hnumbers, hle⟩ := ih
    cases hmark with
    | begun k l frames e =>
      dsimp only at hnumbers hle ⊢
      refine ⟨?_, by omega⟩
      rw [show τ.begun - k = τ.begun - (k + 1) + 1 by omega, List.range'_succ, ← hnumbers]
      rfl
    | _ => exact ⟨hnumbers, hle⟩

/-- An emission that is over, or has not begun, delivers nothing more until it begins. -/
theorem deliveries_eq_nil {n : ℕ} (h : σ.ReadsAll marks τ)
    (hframes : ∀ frame ∈ σ.frames, frame.number ≠ n)
    (hn : n < σ.begun ∨ τ.begun ≤ n) : deliveries n marks = [] := by
  induction h with
  | nil => rfl
  | @cons σ υ τ mark marks hmark hmarks ih =>
    have hle := (emissions_readsAll hmarks).2
    cases hmark with
    | begun k l frames e =>
      have hn' : n < k + 1 ∨ τ.begun ≤ n := hn.imp_left Nat.lt_succ_of_lt
      refine ih ?_ hn'
      intro frame hframe
      rcases List.mem_cons.mp hframe with rfl | hframe
      · dsimp only at hn hle ⊢
        omega
      · exact hframes frame hframe
    | delivered k l frames m e h name waiting =>
      have hne : m ≠ n := hframes _ List.mem_cons_self
      have htail : deliveries n marks = [] := by
        refine ih ?_ hn
        intro frame hframe
        rcases List.mem_cons.mp hframe with rfl | hframe
        · exact hne
        · exact hframes frame (List.mem_cons_of_mem _ hframe)
      simpa [deliveries, Mark.delivery?, hne] using htail
    | ended k l frames m e =>
      exact ih (fun frame hframe => hframes frame (List.mem_cons_of_mem _ hframe)) hn
    | joined k l frames r => exact ih hframes hn
    | left k l l' frames h hleft => exact ih hframes hn

/-- Everybody who waits in a frame gets the event before the frame is gone. -/
theorem deliveries_of_frame {frame : Frame} (h : σ.ReadsAll marks τ) (hσ : σ.Ordered)
    (hend : τ.frames = []) (hframe : frame ∈ σ.frames) :
    deliveries frame.number marks = frame.waiting.map (·, frame.event) := by
  induction h generalizing frame with
  | nil => simp [hend] at hframe
  | @cons σ υ τ mark marks hmark hmarks ih =>
    have hυ := hσ.reads hmark
    cases hmark with
    | begun k l frames e => exact ih hυ hend (List.mem_cons_of_mem _ hframe)
    | delivered k l frames n e h name waiting =>
      rcases List.mem_cons.mp hframe with rfl | hframe
      · have hrest : deliveries n _ = waiting.map (·, e) := ih hυ hend List.mem_cons_self
        simpa [deliveries, Mark.delivery?] using hrest
      · have hne : n ≠ frame.number := (hσ.lt_top hframe).ne'
        have hrest := ih hυ hend (List.mem_cons_of_mem _ hframe)
        simpa [deliveries, Mark.delivery?, hne] using hrest
    | ended k l frames n e =>
      rcases List.mem_cons.mp hframe with rfl | hframe
      · -- Nobody waits any more, and the emission is over.
        have htail : deliveries n marks = [] := by
          refine deliveries_eq_nil hmarks (fun frame hframe => ?_) (Or.inl ?_)
          · exact (hσ.lt_top hframe).ne
          · exact hσ.lt_begun List.mem_cons_self
        simpa [deliveries, Mark.delivery?] using htail
      · exact ih hυ hend hframe
    | joined k l frames r => exact ih hυ hend hframe
    | left k l l' frames h hleft => exact ih hυ hend hframe

end Status

/-! ## Registries -/

theorem mem_registered {r : Registry} {h : Subscription} :
    h ∈ registered r trace ↔ (h, r) ∈ joiners trace ∧ h ∉ leavers trace := by
  simp [registered]

theorem registered_sublist (r : Registry) (trace : List Mark) :
    (registered r trace).Sublist ((joiners trace).map (·.1)) := by
  refine List.filter_sublist.trans ?_
  induction joiners trace with
  | nil => exact .slnil
  | cons p joiners ih =>
    by_cases hp : p.2 = r
    · simpa [hp] using ih
    · simpa [hp] using ih.cons p.1

theorem registered_snoc_joined {h : Subscription} (hnew : h ∉ leavers trace) (q r : Registry) :
    registered r (trace ++ [.joined h q]) = registered r trace ++ if q = r then [h] else [] := by
  have hjoiners : joiners (trace ++ [.joined h q]) = joiners trace ++ [(h, q)] := joiners_append _ _
  have hleavers : leavers (trace ++ [.joined h q]) = leavers trace := by
    simp [leavers, Mark.left?]
  rw [registered, hjoiners, hleavers, List.filterMap_append, List.filter_append]
  by_cases hq : q = r
  · simp [registered, hq, hnew]
  · simp [registered, hq]

theorem registered_snoc_left (h : Subscription) (r : Registry) :
    registered r (trace ++ [.left h]) = (registered r trace).filter (· ≠ h) := by
  have hjoiners : joiners (trace ++ [.left h]) = joiners trace := by
    simp [joiners, Mark.joined?]
  have hleavers : leavers (trace ++ [.left h]) = leavers trace ++ [h] := leavers_append _ _
  rw [registered, hjoiners, hleavers, registered, List.filter_filter]
  refine List.filter_congr fun other _ => ?_
  simp [and_comm]

/-- The registries hold those who have joined them and have not left, and handles are new. -/
structure Records (past : List Mark) (l : Listeners) : Prop where
  of_eq : ∀ r, l.of r = registered r past
  lt_next : ∀ h ∈ (joiners past).map (·.1), h.number < l.next
  joined_of_left : ∀ h ∈ leavers past, h ∈ (joiners past).map (·.1)
  joiners_nodup : ((joiners past).map (·.1)).Nodup

theorem records_start : Records [] .empty where
  of_eq := by
    intro r
    cases r <;> rfl
  lt_next := by simp [joiners]
  joined_of_left := by simp [leavers]
  joiners_nodup := List.nodup_nil

namespace Records

variable {past : List Mark} {l l' : Listeners} {h : Subscription}

/-- A mark by which nobody joins or leaves. -/
theorem snoc (hpast : Records past l) {mark : Mark} (hjoined : mark.joined? = none)
    (hleft : mark.left? = none) : Records (past ++ [mark]) l := by
  have hjoiners : joiners (past ++ [mark]) = joiners past := by
    simp [joiners, hjoined]
  have hleavers : leavers (past ++ [mark]) = leavers past := by
    simp [leavers, hleft]
  constructor
  · intro r
    rw [hpast.of_eq, registered, registered, hjoiners, hleavers]
  · rw [hjoiners]
    exact hpast.lt_next
  · rw [hjoiners, hleavers]
    exact hpast.joined_of_left
  · rw [hjoiners]
    exact hpast.joiners_nodup

theorem joined (hpast : Records past l) (r : Registry) :
    Records (past ++ [.joined ⟨l.next⟩ r]) (l.subscribe r).2 := by
  have hjoiners : (joiners (past ++ [.joined ⟨l.next⟩ r])).map (·.1) =
      (joiners past).map (·.1) ++ [⟨l.next⟩] := by
    rw [joiners_append, List.map_append]
    rfl
  have hleavers : leavers (past ++ [.joined ⟨l.next⟩ r]) = leavers past := by
    simp [leavers, Mark.left?]
  have hnew : (⟨l.next⟩ : Subscription) ∉ (joiners past).map (·.1) :=
    fun hmem => lt_irrefl _ (hpast.lt_next _ hmem)
  constructor
  · intro q
    rw [Listeners.of_subscribe, hpast.of_eq,
      registered_snoc_joined (fun hmem => hnew (hpast.joined_of_left _ hmem))]
  · intro h hmem
    rw [Listeners.next_subscribe]
    rw [hjoiners, List.mem_append, List.mem_singleton] at hmem
    rcases hmem with hmem | rfl
    · exact Nat.lt_succ_of_lt (hpast.lt_next h hmem)
    · exact Nat.lt_succ_self _
  · intro h hmem
    rw [hleavers] at hmem
    rw [hjoiners]
    exact List.mem_append_left _ (hpast.joined_of_left h hmem)
  · rw [hjoiners, ← List.concat_eq_append]
    exact hpast.joiners_nodup.concat hnew

theorem left (hpast : Records past l) (hleft : l.unsubscribe h = (true, l')) :
    Records (past ++ [.left h]) l' := by
  have hjoiners : joiners (past ++ [.left h]) = joiners past := by
    simp [joiners, Mark.joined?]
  have hnodup (r : Registry) : (registered r past).Nodup :=
    hpast.joiners_nodup.sublist (registered_sublist r past)
  have hapart : h ∈ l.of .connection → h ∉ l.of .transfer := by
    intro hconnection htransfer
    rw [hpast.of_eq, mem_registered] at hconnection htransfer
    -- A handle has joined once, so it has joined one registry.
    have hsame := List.inj_on_of_nodup_map hpast.joiners_nodup hconnection.1 htransfer.1 rfl
    simp at hsame
  constructor
  · intro r
    rw [Listeners.of_unsubscribe hleft hapart, hpast.of_eq, registered_snoc_left,
      (hnodup r).erase_eq_filter]
    refine List.filter_congr fun other _ => ?_
    by_cases hother : other = h <;> simp [hother]
  · rw [hjoiners, Listeners.next_unsubscribe hleft]
    exact hpast.lt_next
  · intro other hother
    rw [leavers_append, List.mem_append] at hother
    rw [hjoiners]
    rcases hother with hother | hother
    · exact hpast.joined_of_left other hother
    · obtain rfl : other = h := by simpa [leavers, Mark.left?] using hother
      obtain ⟨r, hmem⟩ := Listeners.mem_of_unsubscribe hleft
      rw [hpast.of_eq, mem_registered] at hmem
      exact List.mem_map.mpr ⟨_, hmem.1, rfl⟩
  · rw [hjoiners]
    exact hpast.joiners_nodup

theorem reads {σ τ : Status} {mark : Mark} (hmark : σ.Reads mark τ)
    (hpast : Records past σ.listeners) : Records (past ++ [mark]) τ.listeners := by
  cases hmark with
  | begun k l frames e => exact hpast.snoc rfl rfl
  | delivered k l frames n e h name waiting => exact hpast.snoc rfl rfl
  | ended k l frames n e => exact hpast.snoc rfl rfl
  | joined k l frames r => exact hpast.joined r
  | left k l l' frames h hleft => exact hpast.left hleft

theorem readsAll {σ τ : Status} {marks : List Mark} (hmarks : σ.ReadsAll marks τ)
    (hpast : Records past σ.listeners) : Records (past ++ marks) τ.listeners := by
  induction hmarks generalizing past with
  | nil => rwa [List.append_nil]
  | cons hmark _ ih =>
    have hrest := ih (hpast.reads hmark)
    rwa [List.append_assoc] at hrest

end Records

/-! ## What emissions deliver -/

/-- Each emission delivers to those who were registered when it began, whatever happens meanwhile,
and the emissions within it are over before it goes on. -/
structure Dispatched (trace : List Mark) : Prop where
  emissions_nodup : (emissions trace).Nodup
  /-- Nothing is delivered but by an emission. -/
  begun_of_delivered : ∀ n h name e, .delivered n h name e ∈ trace → n ∈ emissions trace
  /-- Nobody joins twice, so whoever is registered is so once. -/
  joiners_nodup : ((joiners trace).map (·.1)).Nodup
  registered_nodup : ∀ r before, before <+: trace → (registered r before).Nodup
  /-- The event goes to each of those who were registered when its emission began, once and in
  their order, and to nobody else. -/
  delivers : ∀ before n e after, trace = before ++ .begun n e :: after →
    deliveries n trace = (registered e.registry before).map (·, e)
  /-- An emission that began within another is over when the other goes on. -/
  nested : ∀ before n e amid h name after,
    trace = before ++ .begun n e :: (amid ++ .delivered n h name e :: after) →
      ∀ m ∈ emissions amid, deliveries m after = []
  /-- Whoever leaves still gets what is being dispatched. -/
  reaches_leaver : ∀ before n e amid h after,
    trace = before ++ .begun n e :: (amid ++ .left h :: after) → h ∈ registered e.registry before →
      (h, e) ∈ deliveries n trace
  /-- Whoever has left gets nothing that is emitted afterwards. -/
  misses_leaver : ∀ before h amid n e after,
    trace = before ++ .left h :: (amid ++ .begun n e :: after) → ∀ e', (h, e') ∉ deliveries n trace
  /-- Whoever joins gets nothing of what is being dispatched. -/
  misses_joiner : ∀ before n e amid h r after,
    trace = before ++ .begun n e :: (amid ++ .joined h r :: after) →
      ∀ e', (h, e') ∉ deliveries n trace

namespace Status

variable {τ : Status}

theorem emissions_nodup_of_readsAll (h : start.ReadsAll trace τ) : (emissions trace).Nodup := by
  rw [(emissions_readsAll h).1]
  exact List.nodup_range'

theorem records_of_readsAll (h : start.ReadsAll trace τ) : Records trace τ.listeners :=
  records_start.readsAll h

theorem begun_of_delivered_of_readsAll (h : start.ReadsAll trace τ) {n : ℕ} {l : Subscription}
    {name : String} {e : Event} (hmem : .delivered n l name e ∈ trace) : n ∈ emissions trace := by
  obtain ⟨before, after, rfl⟩ := List.append_of_mem hmem
  obtain ⟨υ, υ', hbefore, hmark, -⟩ := h.split
  have hordered := ordered_start.readsAll hbefore
  have hlt : n < υ.begun := by
    cases hmark with
    | delivered k l frames n e h name waiting => exact hordered.lt_begun List.mem_cons_self
  rw [emissions_append, List.mem_append, (emissions_readsAll hbefore).1]
  left
  simpa [start] using hlt

theorem deliveries_of_begun (h : start.ReadsAll trace τ) (hend : τ.frames = []) {n : ℕ} {e : Event}
    (hsplit : trace = before ++ .begun n e :: after) :
    deliveries n trace = (registered e.registry before).map (·, e) := by
  subst hsplit
  obtain ⟨υ, υ', hbefore, hmark, hafter⟩ := h.split
  have hordered := ordered_start.readsAll hbefore
  have hrecords := records_of_readsAll hbefore
  have hordered' := hordered.reads hmark
  cases hmark with
  | begun n l frames e =>
    have hpast : deliveries n before = [] := by
      refine deliveries_eq_nil hbefore ?_ (Or.inr le_rfl)
      simp [start]
    have hfuture := deliveries_of_frame hafter hordered' hend List.mem_cons_self
    calc deliveries n (before ++ .begun n e :: after)
        = deliveries n before ++ deliveries n after := deliveries_append n before _
      _ = (l.recipients e).map (·, e) := by
        rw [hpast, List.nil_append]
        exact hfuture
      _ = (registered e.registry before).map (·, e) := by
        rw [Listeners.recipients, ← hrecords.of_eq]

/-- When an emission goes on, no other that began after it is still under way. -/
theorem deliveries_of_nested (h : start.ReadsAll trace τ) {n : ℕ} {e : Event} {amid : List Mark}
    {l : Subscription} {name : String}
    (hsplit : trace = before ++ .begun n e :: (amid ++ .delivered n l name e :: after))
    {m : ℕ} (hm : m ∈ emissions amid) : deliveries m after = [] := by
  subst hsplit
  obtain ⟨υ, υ', hbefore, hbegun, hrest⟩ := h.split
  obtain ⟨ρ, ρ', hamid, hdelivered, hafter⟩ := hrest.split
  have hordered := ((ordered_start.readsAll hbefore).reads hbegun).readsAll hamid
  have hbounds : n < m ∧ m < ρ.begun := by
    have hnumber : υ'.begun = n + 1 := by
      cases hbegun with
      | begun => rfl
    rw [(emissions_readsAll hamid).1, List.mem_range'_1, hnumber] at hm
    omega
  have hordered' := hordered.reads hdelivered
  cases hdelivered with
  | delivered k listeners frames n e l name waiting =>
    refine deliveries_eq_nil hafter (fun frame hframe => ?_) (Or.inl hbounds.2)
    -- All frames belong to this emission or to earlier ones.
    rcases List.mem_cons.mp hframe with rfl | hframe
    · exact hbounds.1.ne
    · exact ((hordered'.lt_top hframe).trans hbounds.1).ne

theorem dispatched_of_readsAll (h : start.ReadsAll trace τ) (hend : τ.frames = []) :
    Dispatched trace := by
  have hrecords := records_of_readsAll h
  have hdelivers : ∀ before n e after, trace = before ++ .begun n e :: after →
      deliveries n trace = (registered e.registry before).map (·, e) :=
    fun before n e after hsplit => deliveries_of_begun h hend hsplit
  constructor
  · exact emissions_nodup_of_readsAll h
  · exact fun n l name e hmem => begun_of_delivered_of_readsAll h hmem
  · exact hrecords.joiners_nodup
  · rintro r before ⟨after, rfl⟩
    obtain ⟨υ, hbefore, -⟩ := readsAll_append_iff.mp h
    exact (records_of_readsAll hbefore).joiners_nodup.sublist (registered_sublist r before)
  · exact hdelivers
  · exact fun before n e amid l name after hsplit m hm => deliveries_of_nested h hsplit hm
  · intro before n e amid l after hsplit hregistered
    rw [hdelivers _ _ _ _ hsplit]
    exact List.mem_map.mpr ⟨l, hregistered, rfl⟩
  · intro before l amid n e after hsplit e'
    have hbegun : trace = (before ++ .left l :: amid) ++ .begun n e :: after := by
      rw [hsplit, List.append_assoc, List.cons_append]
    rw [hdelivers _ _ _ _ hbegun]
    intro hmem
    obtain ⟨other, hregistered, heq⟩ := List.mem_map.mp hmem
    obtain rfl : other = l := congrArg Prod.fst heq
    refine (mem_registered.mp hregistered).2 ?_
    simp [leavers, Mark.left?]
  · intro before n e amid l r after hsplit e'
    rw [hdelivers _ _ _ _ hsplit]
    intro hmem
    obtain ⟨other, hregistered, heq⟩ := List.mem_map.mp hmem
    obtain rfl : other = l := congrArg Prod.fst heq
    -- It would have joined twice.
    have hnodup := hrecords.joiners_nodup
    rw [hsplit, joiners_append, List.map_append] at hnodup
    have hbefore := List.mem_map_of_mem (f := (·.1)) (mem_registered.mp hregistered).1
    refine List.disjoint_of_nodup_append hnodup hbefore (List.mem_map.mpr ⟨(other, r), ?_, rfl⟩)
    exact List.mem_filterMap.mpr ⟨.joined other r, by simp, rfl⟩

end Status

end Event.Script

end FaxClient
