import FaxClient.Proofs.Filter.Direction
import FaxClient.Proofs.Transfer.Freight
import FaxClient.Proofs.Zlib.RoundTrip

/-!
# What a transfer delivers

A transfer that gets a connection takes one of the courses of its source.  Whatever happens, what
the sink has is a beginning of the translation of what was read, and the payload that is reported
is that of the blocks written out whole; if the transfer came to its end, that is all the source
gives.
-/

namespace FaxClient.Transfer

/-- The payload that is to be reported is the payload counted. -/
theorem Job.keeps_counted (job : Job) : job.Keeps fun s => s.moved = s.progress.total where
  note := fun _ h => h
  cancelled := fun h => h
  call := fun h => h
  advance := fun n _ => by simp

namespace Plan

theorem establish_waited (p : Plan) (opening : Opening) (s : State) :
    s.Waited (p.establish opening s).2 := by
  have hbegan : s.Waited (s.note (.began .connect)) := s.waited_note trivial
  unfold establish
  split
  · exact .refl s
  · cases opening with
    | timesOut => exact hbegan
    | turn peer =>
      cases peer with
      | stalls => exact hbegan.trans (State.waited_cancel _)
      | completes result cancels =>
        cases result with
        | error fault => exact hbegan.trans (State.waited_cancelIf _ cancels)
        | ok peer => exact hbegan.trans (State.waited_cancelIf _ cancels)

theorem waited_afterFailing (p : Plan) (e : Error) (s : State) : s.Waited (p.afterFailing e s) :=
  (s.waited_emit _ _).trans (State.waited_emit _ _ _)

theorem waited_afterOpening (p : Plan) (peer : Address) (s : State) :
    s.Waited (p.afterOpening peer s) :=
  (s.waited_emit _ _).trans (State.waited_emit _ _ _)

theorem waited_afterClosing (p : Plan) (peer : Address) (s : State) :
    s.Waited (p.afterClosing peer s) :=
  (s.waited_emit _ _).trans (State.waited_emit _ _ _)

theorem moved_pump (p : Plan) (peer : Address) {s : State} (h : s.moved = s.progress.total) :
    let ended := p.job.pump p.source p.filter.start (p.afterOpening peer s)
    ended.2.moved = ended.2.progress.total := by
  apply p.job.keeps_counted.pump p.source p.filter.start
  simpa using h

/-- A transfer had no connection and moved nothing, or it took one of the courses of its source and
reports the payload that was counted. -/
theorem run_carries (p : Plan) (opening : Opening) (cancelled : Bool) :
    let r := p.run opening cancelled
    (payload? r.result = none ∧ r.journal.Idle) ∨
      ∃ ending n, ∃ k l : Journal, r.journal = k ++ l ∧ l.Idle ∧ r.result = result ending n ∧
        p.job.Carries p.source p.filter.start ending k n := by
  intro r
  have hwaited := p.establish_waited opening (.start cancelled)
  obtain ⟨s, -, hprogress, hmoved, ⟨e, heq, he⟩ | ⟨peer, heq⟩⟩ :=
    p.establish_cases opening (.start cancelled)
  · left
    have hr : r = report (.error e) (p.afterFailing e s) := run_of_error heq
    rw [heq] at hwaited
    obtain ⟨k, hk, hwent⟩ := hwaited.trans (p.waited_afterFailing e s)
    have hjournal : (report (.error e) (p.afterFailing e s)).journal = k := hwent.journal_eq
    rw [hr, hjournal]
    exact ⟨payload?_of_precedesOpening he, hk⟩
  · right
    let ended := p.job.pump p.source p.filter.start (p.afterOpening peer s)
    have hr : r = report (result ended.1 ended.2.moved) (p.afterClosing peer ended.2) :=
      run_of_ok heq
    rw [heq] at hwaited
    obtain ⟨i, hi, hbegun⟩ := hwaited.trans (p.waited_afterOpening peer s)
    obtain ⟨k, n, hended, hcarries⟩ :=
      p.job.pump_carries p.source p.filter.start (p.afterOpening peer s)
    obtain ⟨l, hl, hclosed⟩ := p.waited_afterClosing peer ended.2
    -- What is reported is counted apart from the progress that is announced, but the two agree.
    have hpayload : ended.2.moved = n := by
      have htotal : ended.2.moved = ended.2.progress.total :=
        p.moved_pump peer (by rw [hmoved, hprogress]; rfl)
      have hzero : (p.afterOpening peer s).progress.total = 0 := hbegun.total_eq
      rw [htotal, hended.total_eq, hzero, Nat.zero_add]
    refine ⟨ended.1, n, i ++ k, l, ?_, hl, ?_, hcarries.waited hi⟩
    · rw [hr]
      exact ((hbegun.trans hended).trans hclosed).journal_eq
    · rw [hr, ← hpayload]
      rfl

/-- What the source of a transfer gives, and what the filter makes of it. -/
def freight (p : Plan) : List (Octets × Octets) := p.filter.freight p.source p.filter.start

variable {p : Plan} {opening : Opening} {cancelled : Bool}

theorem supports_of_isPrefix {j : Journal} (hj : j <+: (p.run opening cancelled).journal) :
    p.job.Supports p.source p.filter.start j := by
  obtain ⟨-, hidle⟩ | ⟨ending, n, k, l, hjournal, hl, -, hcarries⟩ :=
    p.run_carries opening cancelled
  · exact Job.supports_of_idle (hidle.of_isPrefix hj)
  · rw [hjournal] at hj
    rcases Journal.prefix_append_cases hj with hj | ⟨i, rfl, hi⟩
    · exact hcarries.supports hj
    · exact (hcarries.supports List.prefix_rfl).of_alike ((hl.of_isPrefix hi).alike_append k)

theorem settles_of_payload {n : Nat} (h : payload? (p.run opening cancelled).result = some n) :
    p.job.Settles p.freight (p.run opening cancelled).journal n := by
  obtain ⟨hnone, -⟩ | ⟨ending, m, k, l, hjournal, hl, hresult, hcarries⟩ :=
    p.run_carries opening cancelled
  · rw [hnone] at h
    cases h
  · rw [hresult, payload?_result] at h
    cases h
    rw [hjournal]
    exact hcarries.settles.of_alike (hl.alike_append k)

theorem completes_of_ok {n : Nat} (h : (p.run opening cancelled).result = .ok ⟨n, false⟩) :
    p.job.Completes p.source p.filter.start (p.run opening cancelled).journal := by
  obtain ⟨hnone, -⟩ | ⟨ending, m, k, l, hjournal, hl, hresult, hcarries⟩ :=
    p.run_carries opening cancelled
  · rw [h] at hnone
    cases hnone
  · rw [hresult] at h
    have hcomplete : ending = .complete := by
      cases ending with
      | complete => rfl
      | cancelled => simp [result] at h
      | failed fault => simp [result] at h
    rw [hjournal]
    have hcompletes := hcarries.completes hcomplete
    exact hcompletes.of_alike (hl.alike_append k) (by simp [hcompletes.flushed])
      (by simp [hcompletes.shut])

theorem run_filter_of_ok {n : Nat} (h : (p.run opening cancelled).result = .ok ⟨n, false⟩) :
    p.filter.run (p.run opening cancelled).journal.blocks =
      .ok (p.run opening cancelled).written := by
  have hcompletes := completes_of_ok h
  exact (Filter.run_eq_ok_iff _ _ _).mpr ⟨_, hcompletes.outputs, hcompletes.written.symm⟩

/-- What the sink has is at every moment a beginning of what the octets read stand for; it is all of
it if the transfer came to its end, and the payload is then its length.  In every case the payload
is the length of what was written out whole, so the sink has at least as much. -/
theorem download_delivers (p : Plan) (opening : Opening) (cancelled : Bool)
    (hdirection : p.direction = .download) {inflated : Octets → Octets}
    (hinflated : p.codec.decompressor.Follows inflated) :
    let r := p.run opening cancelled
    let image := p.settings.representation.inward ∘ p.settings.mode.inward inflated
    (∀ j : Journal, j <+: r.journal → j.written <+: image j.input) ∧
      (∀ n, r.result = .ok ⟨n, false⟩ → ∃ blocks, p.source.blocks? = some blocks ∧
        r.written = image blocks.flatten ∧ n = (image blocks.flatten).length) ∧
      (∀ n, payload? r.result = some n → r.journal.Begins p.freight ∧
        n = (r.journal.moves.map fun moved => moved.2.length).sum ∧ n ≤ r.written.length) := by
  intro r image
  have hfollows : p.filter.Follows image := by
    rw [filter, hdirection]
    exact Filter.inbound_follows hinflated _ _
  have hpayload (n : Nat) (h : payload? r.result = some n) :
      n = (r.journal.moves.map fun moved => moved.2.length).sum := by
    have hdownload : p.job.direction.payload = fun moved => moved.2.length := by
      rw [job, hdirection]
      rfl
    rw [(settles_of_payload h).counted, hdownload]
  refine ⟨?_, ?_, ?_⟩
  · intro j hj
    exact (supports_of_isPrefix hj).written_isPrefix hfollows
  · intro n h
    have hcompletes := completes_of_ok h
    have hwritten : r.written = image r.journal.blocks.flatten :=
      hfollows.run_eq (run_filter_of_ok h)
    refine ⟨r.journal.blocks, hcompletes.blocks, hwritten, ?_⟩
    have hn := hpayload n (by rw [h]; rfl)
    have hall : r.written = (r.journal.moves.map Prod.snd).flatten := hcompletes.written
    rw [hn, r.journal.sum_length_moves, ← hwritten, hall]
  · intro n h
    have hmoves : r.journal.Begins p.freight := (settles_of_payload h).moves
    refine ⟨hmoves, hpayload n h, ?_⟩
    rw [hpayload n h]
    exact hmoves.sum_le

/-- Two compressed lines, read in three pieces and written in several calls. -/
def linesIn : Plan where
  settings := ⟨.ascii, .compressed, .ofSeconds 30⟩
  side := .passive
  direction := .download
  codec := zlib
  source := [.now [120, 156, 75], .now [228, 229, 74, 2], .now [0, 2, 37, 0, 219]]
  sink := ⟨fun call => if call = 1 then .now (some 1) else .now none, .now (), .now ()⟩
  watch := fun _ => false

def reached : Opening := .turn (.now (.v4 ⟨.loopback, 20⟩))

theorem download_delivers_lines :
    (linesIn.run reached false).result = .ok ⟨3, false⟩ ∧
      (∃ blocks, linesIn.source.blocks? = some blocks ∧
        (linesIn.run reached false).written = LineEnding.contract (Zlib.inflated blocks.flatten) ∧
        3 = (LineEnding.contract (Zlib.inflated blocks.flatten)).length) ∧
      (linesIn.run reached false).journal.Begins linesIn.freight := by
  have hresult : (linesIn.run reached false).result = .ok ⟨3, false⟩ := by decide +kernel
  obtain ⟨-, hwhole, hpayload⟩ :=
    linesIn.download_delivers reached false rfl Zlib.inflate_follows
  exact ⟨hresult, hwhole 3 hresult, (hpayload 3 (by rw [hresult]; rfl)).1⟩

/-- What the connection has is at every moment a beginning of what the filter gives for the octets
read, where what it gives at the end counts once the source has ended; it is all of it if the
transfer came to its end, and the payload is then the length of the source.  In every case the
payload is the length of the blocks whose translation was written out whole. -/
theorem upload_delivers (p : Plan) (opening : Opening) (cancelled : Bool)
    (hdirection : p.direction = .upload) (hcodec : p.codec.Lossless) :
    let r := p.run opening cancelled
    let image := p.settings.representation.outward
    (∀ j : Journal, j <+: r.journal →
        (j.written <+: p.filter.emitted j.blocks ∨
          p.source.blocks? = some j.blocks ∧
            ∃ stream, p.filter.run j.blocks = .ok stream ∧ j.written <+: stream) ∧
        (p.settings.mode = .stream → j.written <+: image j.input)) ∧
      (∀ n, r.result = .ok ⟨n, false⟩ → ∃ blocks, p.source.blocks? = some blocks ∧
        p.filter.run blocks = .ok r.written ∧
        (p.settings.mode = .stream → r.written = image blocks.flatten) ∧
        (p.settings.mode = .compressed → ∀ pieces : List Octets, pieces.flatten = r.written →
          p.codec.decompressor.run pieces = .ok (image blocks.flatten)) ∧
        n = blocks.flatten.length ∧ r.journal.flushed ∧ r.journal.shut) ∧
      (∀ n, payload? r.result = some n → r.journal.Begins p.freight ∧
        n = (r.journal.moves.map fun moved => moved.1.length).sum) := by
  intro r image
  have hfilter : p.filter = .outbound p.codec p.settings.representation p.settings.mode := by
    rw [filter, hdirection]
  have hfollows (hmode : p.settings.mode = .stream) : p.filter.Follows image := by
    rw [hfilter, hmode]
    exact Filter.outbound_stream_follows _ _
  have hpayload (n : Nat) (h : payload? r.result = some n) :
      n = (r.journal.moves.map fun moved => moved.1.length).sum := by
    have hupload : p.job.direction.payload = fun moved => moved.1.length := by
      rw [job, hdirection]
      rfl
    rw [(settles_of_payload h).counted, hupload]
  refine ⟨?_, ?_, ?_⟩
  · intro j hj
    have hsupports := supports_of_isPrefix hj
    refine ⟨hsupports.imp_right ?_, ?_⟩
    · rintro ⟨hwhole, outs, houts, hprefix⟩
      exact ⟨hwhole, _, (Filter.run_eq_ok_iff _ _ _).mpr ⟨outs, houts, rfl⟩, hprefix⟩
    · intro hmode
      exact hsupports.written_isPrefix (hfollows hmode)
  · intro n h
    have hcompletes := completes_of_ok h
    have hrun := run_filter_of_ok h
    refine ⟨r.journal.blocks, hcompletes.blocks, hrun, ?_, ?_, ?_, hcompletes.flushed,
      hcompletes.shut⟩
    · intro hmode
      exact (hfollows hmode).run_eq hrun
    · intro hmode pieces hpieces
      rw [hfilter, hmode] at hrun
      exact Filter.outbound_compressed_decompresses hcodec hrun hpieces
    · rw [hpayload n (by rw [h]; rfl)]
      exact hcompletes.sum_length_sources
  · intro n h
    exact ⟨(settles_of_payload h).moves, hpayload n h⟩

/-- Two lines, of which a mode sends what it makes. -/
def linesOut (mode : Mode) (source : Source) : Plan where
  settings := ⟨.ascii, mode, .ofSeconds 30⟩
  side := .passive
  direction := .upload
  codec := zlib
  source := source
  sink := ⟨fun call => if call = 1 then .now (some 2) else .now none, .now (), .now ()⟩
  watch := fun _ => false

/-- All of the lines are sent; and when the source stalls after them, they count although the
compressor still holds them. -/
theorem upload_delivers_lines :
    let sent := (linesOut .stream [.now [97, 10], .now [98]]).run reached false
    let held := (linesOut .compressed [.now [97, 10], .now [98], .stalls]).run reached false
    (sent.result = .ok ⟨3, false⟩ ∧ sent.written = [97, 13, 10, 98] ∧ sent.journal.flushed ∧
        sent.journal.shut) ∧
      held.result = .ok ⟨3, true⟩ ∧ held.written = [] ∧
        3 = (held.journal.moves.map fun moved => moved.1.length).sum := by
  intro sent held
  have hsent : sent.result = .ok ⟨3, false⟩ := by decide +kernel
  have hheld : held.result = .ok ⟨3, true⟩ := by decide +kernel
  obtain ⟨-, hwhole, -⟩ := upload_delivers (linesOut .stream [.now [97, 10], .now [98]]) reached
    false rfl Zlib.lossless
  obtain ⟨-, -, hpayload⟩ := upload_delivers
    (linesOut .compressed [.now [97, 10], .now [98], .stalls]) reached false rfl Zlib.lossless
  obtain ⟨blocks, hblocks, -, hwritten, -, -, hflushed, hshut⟩ := hwhole 3 hsent
  cases hblocks
  have hpayload := hpayload 3 (by rw [hheld]; rfl)
  exact ⟨⟨hsent, hwritten rfl, hflushed, hshut⟩, hheld, by decide +kernel, hpayload.2⟩

end Plan

end FaxClient.Transfer
