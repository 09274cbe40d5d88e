import FaxClient.Proofs.Pool.Revocation

/-!
# Pools over sessions of any kind

To a run of actions a session is open until it dies or is asked to close, and not afterwards.  A
session of another kind may be open or not as it pleases.  A world unfolds by actions and by reports
between them, each of which says anew which sessions are open; so what holds however a world unfolds
holds over sessions of any kind.
-/

namespace FaxClient.Pool.World

inductive Turns (s : Settings) (w : World) : World → Prop
  | act {w' : World} (a : Action) (h : w.act s a = some w') : Turns s w w'
  /-- Other sessions are open than before. -/
  | report (dead : List Line) : Turns s w { w with dead := dead }

abbrev Unfolds (s : Settings) : World → World → Prop := Relation.ReflTransGen (Turns s)

/-- What holds of every world that a pool can come to, whatever its sessions are. -/
structure Sound (w : World) : Prop where
  orderly : w.Orderly
  balanced : w.ledger.Balanced w.share
  marked : w.ledger.Marked w.share

variable {s : Settings} {w w' : World}

theorem sound_start : start.Sound := ⟨orderly_start, Ledger.balanced_empty, Ledger.marked_empty⟩

theorem Sound.held_nodup (h : w.Sound) : (memberIds w.held).Nodup :=
  Multiset.nodup_of_le (Multiset.le_add_right _ _) h.balanced.placed.hands_nodup

theorem Sound.lawful (h : w.Sound) (hturn : Turns s w w') : w.Lawful s w' := by
  cases hturn with
  | act a hact => exact lawful_act h.orderly h.held_nodup hact
  | report dead => exact ⟨.refl, h.orderly.of_sublist (List.Sublist.refl _)⟩

/-- What every section keeps while the books balance is kept by a turn. -/
theorem Sound.kept {P : Ledger × Share → Prop} (h : w.Sound)
    (hsection : ∀ {x y}, Section s x y → x.1.Balanced x.2 → P x → P y)
    (hP : P (w.ledger, w.share)) (hturn : Turns s w w') : P (w'.ledger, w'.share) := by
  have hkept := (h.lawful hturn).sections.invariant (P := fun x => x.1.Balanced x.2 ∧ P x)
    (fun hxy hx => ⟨hx.1.of_section hxy, hsection hxy hx.1 hx.2⟩) ⟨h.balanced, hP⟩
  exact hkept.2

theorem Sound.turn (h : w.Sound) (hturn : Turns s w w') : w'.Sound where
  orderly := (h.lawful hturn).orderly
  balanced := h.kept (P := fun x => x.1.Balanced x.2) (fun hxy _ => .of_section hxy) h.balanced hturn
  marked := h.kept (P := fun x => x.1.Marked x.2) (fun hxy hx => .of_section hxy hx) h.marked hturn

theorem Unfolds.sound (h : Unfolds s w w') (hw : w.Sound) : w'.Sound := by
  induction h with
  | refl => exact hw
  | tail _ hturn ih => exact ih.turn hturn

theorem unfolds_of_run {actions : List Action} (h : run s w actions = some w') :
    Unfolds s w w' := by
  induction actions generalizing w with
  | nil =>
    obtain rfl := Option.some.inj h
    exact .refl
  | cons a actions ih =>
    obtain ⟨next, hact, hrest⟩ := Option.bind_eq_some_iff.mp h
    exact .head (.act a hact) (ih hrest)

end FaxClient.Pool.World
