import FaxClient.Pool.World
import Mathlib

/-!
# What a ledger does not hold

Idle members stand in the ledger; every other member is somewhere outside it: in a caller's hands,
in a creation, or on its way to be closed.  A share says which members these are, and how many
places are held for creations.  Every task and every caller has a share, and shares add up.
-/

namespace FaxClient.Pool

structure Share where
  /-- The members in callers' hands, also while a task has them on loan. -/
  hands : Multiset MemberId
  arriving : Multiset MemberId
  /-- The members that were taken out of the pool and are closed. -/
  leaving : Multiset MemberId
  places : ℕ

namespace Share

instance : Zero Share := ⟨⟨0, 0, 0, 0⟩⟩

instance : Add Share :=
  ⟨fun F G => ⟨F.hands + G.hands, F.arriving + G.arriving, F.leaving + G.leaving,
    F.places + G.places⟩⟩

theorem ext {F G : Share} (hhands : F.hands = G.hands) (harriving : F.arriving = G.arriving)
    (hleaving : F.leaving = G.leaving) (hplaces : F.places = G.places) : F = G := by
  cases F
  cases G
  simp_all

@[simp] theorem hands_zero : (0 : Share).hands = 0 := rfl
@[simp] theorem arriving_zero : (0 : Share).arriving = 0 := rfl
@[simp] theorem leaving_zero : (0 : Share).leaving = 0 := rfl
@[simp] theorem places_zero : (0 : Share).places = 0 := rfl

@[simp] theorem hands_add (F G : Share) : (F + G).hands = F.hands + G.hands := rfl
@[simp] theorem arriving_add (F G : Share) : (F + G).arriving = F.arriving + G.arriving := rfl
@[simp] theorem leaving_add (F G : Share) : (F + G).leaving = F.leaving + G.leaving := rfl
@[simp] theorem places_add (F G : Share) : (F + G).places = F.places + G.places := rfl

instance : AddCommMonoid Share where
  add_assoc F G H := Share.ext (add_assoc _ _ _) (add_assoc _ _ _) (add_assoc _ _ _)
    (add_assoc _ _ _)
  zero_add F := Share.ext (zero_add _) (zero_add _) (zero_add _) (zero_add _)
  add_zero F := Share.ext (add_zero _) (add_zero _) (add_zero _) (add_zero _)
  add_comm F G := Share.ext (add_comm _ _) (add_comm _ _) (add_comm _ _) (add_comm _ _)
  nsmul := nsmulRec

def held (ids : Multiset MemberId) : Share := ⟨ids, 0, 0, 0⟩

@[simp] theorem held_zero : held 0 = 0 := rfl

theorem held_add (ids ids' : Multiset MemberId) : held (ids + ids') = held ids + held ids' := rfl

def arrival (id : MemberId) : Share := ⟨0, {id}, 0, 0⟩

def closing (ids : Multiset MemberId) : Share := ⟨0, 0, ids, 0⟩

theorem closing_add (ids ids' : Multiset MemberId) :
    closing (ids + ids') = closing ids + closing ids' := rfl

def place : Share := ⟨0, 0, 0, 1⟩

/-- A share that nobody would miss: without a place, and with no member in anybody's hands. -/
structure Loose (F : Share) : Prop where
  hands_eq : F.hands = 0
  places_eq : F.places = 0

theorem Loose.zero : Loose 0 := ⟨rfl, rfl⟩

theorem Loose.add {F G : Share} (hF : F.Loose) (hG : G.Loose) : (F + G).Loose :=
  ⟨by simp [hF.hands_eq, hG.hands_eq], by simp [hF.places_eq, hG.places_eq]⟩

theorem loose_arrival (id : MemberId) : (arrival id).Loose := ⟨rfl, rfl⟩

theorem loose_closing (ids : Multiset MemberId) : (closing ids).Loose := ⟨rfl, rfl⟩

end Share

/-! ## The shares of tasks -/

def memberIds (members : List Member) : Multiset MemberId := (members.map (·.id) : List MemberId)

@[simp] theorem memberIds_nil : memberIds [] = 0 := rfl

@[simp] theorem memberIds_cons (m : Member) (members : List Member) :
    memberIds (m :: members) = {m.id} + memberIds members := rfl

@[simp] theorem memberIds_append (ms ns : List Member) :
    memberIds (ms ++ ns) = memberIds ms + memberIds ns := by
  simp [memberIds]

def Errand.share : Errand → Share
  | .release m | .ask m _ | .leave m => .held {m.id}
  | .drain left _ | .renew left _ => .closing (memberIds left)
  | .acquire _ | .grow _ | .replace _ | .start | .fill .. | .stop | .restart => 0

/-- What a creation has besides its place. -/
def Creation.share : Creation → Share
  | .connecting id => .arrival id
  | .loggingIn m _ _ | .closing m _ _ | .ended (.ok m) => .arrival m.id
  | .ended (.error _) => 0

def Doing.share : Doing → Share
  | .creating c => .place + c.share
  | .discarding m | .closing m _ => .closing {m.id}
  | .ready | .parked _ | .asking | .leaving => 0

def Task.share (t : Task) : Share := t.errand.share + t.doing.share

def Outcome.share : Outcome → Share
  | .acquired m | .answered m _ | .left m _ => .held {m.id}
  | .refused _ | .released | .tallied _ => 0

def Progress.share : Progress → Share
  | .running t => t.share
  | .finished o => o.share

/-- Whether what a task does has a share of its own. -/
def Doing.isBusy : Doing → Bool
  | .creating _ | .discarding _ | .closing .. => true
  | .ready | .parked _ | .asking | .leaving => false

theorem Doing.share_of_not_isBusy {d : Doing} (h : d.isBusy = false) : d.share = 0 := by
  cases d <;> simp_all [Doing.isBusy, Doing.share]

theorem Creation.loose_share (c : Creation) : c.share.Loose := by
  cases c with
  | ended result =>
    cases result with
    | ok m => exact Share.loose_arrival _
    | error e => exact .zero
  | _ => exact Share.loose_arrival _

/-- Whether no member is on loan for an errand. -/
def Errand.isFree : Errand → Bool
  | .release _ | .ask .. | .leave _ => false
  | .acquire _ | .grow _ | .replace _ | .start | .fill .. | .stop | .drain .. | .restart
  | .renew .. => true

theorem Errand.loose_share {e : Errand} (h : e.isFree = true) : e.share.Loose := by
  cases e with
  | drain left tally => exact Share.loose_closing _
  | renew left tally => exact Share.loose_closing _
  | release m => simp [isFree] at h
  | ask m command => simp [isFree] at h
  | leave m => simp [isFree] at h
  | _ => exact .zero

/-- A task with a member on loan neither creates members nor closes any. -/
def Task.Proper (t : Task) : Prop := t.doing.isBusy = true → t.errand.isFree = true

/-! ## The shares of a world -/

/-- All that a world holds outside the ledger. -/
def World.share (w : World) : Share :=
  .held (memberIds w.held) + (w.tasks.map (·.2.share)).sum

end FaxClient.Pool
