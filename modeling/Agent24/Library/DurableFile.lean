import Mathlib.Data.List.Infix
import Mathlib.Order.Lattice
import Mathlib.Algebra.Ring.Nat

/-! A file on a disk that keeps, over a crash, only what was synced and linked. -/

set_option autoImplicit false
namespace Library

/-- A file as it reads now; what is not there reads as empty. -/
structure DurableFile (β : Type) where
  data : List β
  /-- How many of its first elements are on the disk. -/
  synced : Nat
  /-- Whether the directories that lead to it are on the disk. -/
  linked : Bool

namespace DurableFile
variable {β : Type} {f : DurableFile β} {kept bytes past : List β} {offset : Nat}

def absent : DurableFile β := ⟨[], 0, false⟩

section
variable (f : DurableFile β)

/-- `set_len`, down. -/
def cut (offset : Nat) : DurableFile β :=
  { f with data := f.data.take offset, synced := min f.synced offset }

def write (offset : Nat) (bytes : List β) : DurableFile β :=
  { f with
    data := f.data.take offset ++ bytes ++ f.data.drop (offset + bytes.length)
    synced := min f.synced offset }

def sync : DurableFile β := { f with synced := f.data.length }

def link : DurableFile β := { f with linked := true }

/-- What a write that failed leaves: the elements before its offset, and anything after them. -/
def disturb (offset : Nat) (past : List β) : DurableFile β :=
  { f with data := f.data.take offset ++ past, synced := min f.synced offset }

def survive (past : List β) : DurableFile β :=
  { f with data := if f.linked then f.data.take f.synced ++ past else past }

/-- The file begins with `kept`, now and after a crash. -/
structure Holds (kept : List β) : Prop where
  begins : kept <+: f.data
  safe : kept ≠ [] → f.linked = true ∧ kept.length ≤ f.synced

theorem Holds.nil : f.Holds [] := ⟨List.nil_prefix, fun some_ => absurd rfl some_⟩

end

section
variable (holds : f.Holds kept)
include holds

theorem Holds.length_le : kept.length ≤ f.data.length := holds.begins.length_le

theorem Holds.take_eq : f.data.take kept.length = kept :=
  (List.prefix_iff_eq_take.mp holds.begins).symm

section
variable (within : kept.length ≤ offset)
include within

theorem Holds.keep {f' : DurableFile β} (front : f.data.take offset <+: f'.data) (linked : f'.linked = f.linked)
    (synced : min f.synced offset ≤ f'.synced) : f'.Holds kept where
  begins := (List.prefix_take_iff.mpr ⟨holds.begins, within⟩).trans front
  safe some_ := by
    obtain ⟨there, safe⟩ := holds.safe some_
    exact ⟨linked.trans there, le_trans (le_min safe within) synced⟩

theorem Holds.cut : (f.cut offset).Holds kept :=
  holds.keep within (List.prefix_refl _) rfl le_rfl

theorem Holds.write : (f.write offset bytes).Holds kept := by
  refine holds.keep within ?_ rfl le_rfl
  rw [DurableFile.write, List.append_assoc]
  exact List.prefix_append ..

theorem Holds.disturb :
    (f.disturb offset past).Holds kept :=
  holds.keep within (List.prefix_append ..) rfl le_rfl

end

theorem Holds.sync : f.sync.Holds kept where
  begins := holds.begins
  safe some_ := ⟨(holds.safe some_).1, holds.length_le⟩

theorem Holds.link : f.link.Holds kept where
  begins := holds.begins
  safe some_ := ⟨rfl, (holds.safe some_).2⟩

theorem Holds.survive : (f.survive past).Holds kept := by
  by_cases empty : kept = []
  · rw [empty]
    exact .nil _
  obtain ⟨there, safe⟩ := holds.safe empty
  refine ⟨?_, fun _ => ⟨there, safe⟩⟩
  rw [DurableFile.survive, if_pos there]
  exact (List.prefix_take_iff.mpr ⟨holds.begins, safe⟩).trans (List.prefix_append ..)

end

theorem Holds.of_synced (all : f.synced = f.data.length) (there : f.linked = true) : f.Holds f.data :=
  ⟨List.prefix_refl _, fun _ => ⟨there, all.ge⟩⟩

theorem data_write_end (ends : f.data.length = offset) : (f.write offset bytes).data = f.data ++ bytes := by
  rw [DurableFile.write]
  rw [List.take_of_length_le ends.le, List.drop_eq_nil_of_le (by omega), List.append_nil]

theorem length_cut (reaches : offset ≤ f.data.length) : (f.cut offset).data.length = offset := by
  exact (List.length_take_of_le reaches)

end DurableFile
end Library
