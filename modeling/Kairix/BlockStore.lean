import Mathlib.Tactic

/-!
# Block stores

A byte buffer holds whole blocks one after the other.  A timeline is a block store with
the contents it had at every moment; the moments are counted by the stores.
-/

namespace BlockStore

variable {β : Type*} {size : ℕ}

def slot (size : ℕ) (buffer : ℕ → β) (index : ℕ) : Fin size → β :=
  fun byte => buffer (index * size + byte)

def put (buffer : ℕ → β) (index : ℕ) (block : Fin size → β) : ℕ → β :=
  fun place =>
    if hplace : 0 < size ∧ place / size = index then
      block ⟨place % size, Nat.mod_lt place hplace.1⟩
    else buffer place

theorem place_div (index : ℕ) (byte : Fin size) : (index * size + byte) / size = index := by
  rw [Nat.mul_comm, Nat.mul_add_div (Nat.zero_lt_of_lt byte.isLt), Nat.div_eq_of_lt byte.isLt,
    Nat.add_zero]

theorem slot_put_self (buffer : ℕ → β) (index : ℕ) (block : Fin size → β) :
    slot size (put buffer index block) index = block := by
  funext byte
  have hsize : 0 < size := Nat.zero_lt_of_lt byte.isLt
  have hmod : (index * size + byte) % size = byte := Nat.mul_add_mod_of_lt byte.isLt
  simp [slot, put, hsize, place_div index byte, hmod]

theorem slot_put_ne (buffer : ℕ → β) {index other : ℕ} (block : Fin size → β)
    (hne : other ≠ index) :
    slot size (put buffer index block) other = slot size buffer other := by
  funext byte
  simp [slot, put, place_div other byte, hne]

theorem slot_slice (buffer : ℕ → β) (first index : ℕ) :
    slot size (fun place => buffer (first * size + place)) index =
      slot size buffer (first + index) := by
  funext byte
  simp only [slot, Nat.add_mul, Nat.add_assoc]

theorem slot_overlay (window data : ℕ → β) {count index : ℕ} (hindex : index < count) :
    slot size (fun place => if place < count * size then window place else data place) index =
      slot size window index := by
  funext byte
  have hplace : index * size + byte < count * size :=
    calc index * size + byte < index * size + size := Nat.add_lt_add_left byte.isLt _
      _ = (index + 1) * size := (Nat.succ_mul index size).symm
      _ ≤ count * size := Nat.mul_le_mul_right size hindex
  simp [slot, hplace]

end BlockStore

/-- The contents of a store at the moments up to `now`. -/
structure Timeline (κ β : Type*) where
  contents : ℕ → κ → β
  now : ℕ

namespace Timeline

variable {κ β : Type*} [DecidableEq κ]

def current (timeline : Timeline κ β) : κ → β :=
  timeline.contents timeline.now

def store (timeline : Timeline κ β) (key : κ) (value : β) : Timeline κ β where
  contents := Function.update timeline.contents (timeline.now + 1)
    (Function.update timeline.current key value)
  now := timeline.now + 1

def Held (timeline : Timeline κ β) (since upto : ℕ) (key : κ) (value : β) : Prop :=
  ∃ moment, since ≤ moment ∧ moment ≤ upto ∧ timeline.contents moment key = value

structure Extends (timeline later : Timeline κ β) : Prop where
  now_le : timeline.now ≤ later.now
  same : ∀ moment ≤ timeline.now, later.contents moment = timeline.contents moment

omit [DecidableEq κ] in
theorem Extends.refl (timeline : Timeline κ β) : timeline.Extends timeline :=
  ⟨Nat.le_refl _, fun _ _ => rfl⟩

theorem extends_store (timeline : Timeline κ β) (key : κ) (value : β) :
    timeline.Extends (timeline.store key value) where
  now_le := Nat.le_succ _
  same moment hmoment := Function.update_of_ne (by omega) _ _

variable {since : ℕ}

omit [DecidableEq κ] in
theorem held_current (timeline : Timeline κ β) (hsince : since ≤ timeline.now) (key : κ) :
    timeline.Held since timeline.now key (timeline.current key) :=
  ⟨timeline.now, hsince, Nat.le_refl _, rfl⟩

theorem held_store (timeline : Timeline κ β) (hsince : since ≤ timeline.now) (key : κ) (value : β) :
    (timeline.store key value).Held since (timeline.store key value).now key value := by
  refine ⟨timeline.now + 1, by omega, Nat.le_refl _, ?_⟩
  simp [store]

omit [DecidableEq κ] in
theorem Held.extends {timeline later : Timeline κ β} {upto upto' : ℕ} {key : κ} {value : β}
    (hheld : timeline.Held since upto key value) (hupto : upto ≤ timeline.now) (hle : upto ≤ upto')
    (hext : timeline.Extends later) : later.Held since upto' key value := by
  obtain ⟨moment, hsince, hmoment, hvalue⟩ := hheld
  refine ⟨moment, hsince, hmoment.trans hle, ?_⟩
  rw [hext.same moment (hmoment.trans hupto), hvalue]

end Timeline
