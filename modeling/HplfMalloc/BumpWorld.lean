import HplfMalloc.Lib.Transition
import HplfMalloc.State

/-!
# A system that grants every request

A concrete world to run the allocator in: pages of 4096 bytes, and each mapping placed on the first page
above everything mapped, as long as the address space lasts. Nothing fails except what the argument says.
-/

namespace Hplf

/-- The first page above all the regions. -/
def bumpBase : List Mapping → Nat
  | [] => 4096
  | r :: rest => max (bumpBase rest) ((r.base + r.length + 4095) / 4096 * 4096)

def bumpMmap (mapped : List Mapping) (length : Nat) : Except Errno Nat :=
  if bumpBase mapped + length ≤ addressSpace then
    .ok (bumpBase mapped)
  else
    .error .ENOMEM

theorem bumpBase_ge (mapped : List Mapping) : 4096 ≤ bumpBase mapped := by
  induction mapped with
  | nil => exact Nat.le_refl _
  | cons r rest ih => exact ih.trans (Nat.le_max_left _ _)

theorem bumpBase_aligned (mapped : List Mapping) : 4096 ∣ bumpBase mapped := by
  induction mapped with
  | nil => exact Nat.dvd_refl _
  | cons r rest ih =>
      rw [bumpBase]
      rcases Nat.le_total (bumpBase rest) ((r.base + r.length + 4095) / 4096 * 4096) with hle | hle
      · rw [Nat.max_eq_right hle]
        exact Nat.dvd_mul_left _ _
      · rwa [Nat.max_eq_left hle]

theorem end_le_bumpBase {mapped : List Mapping} {r : Mapping} (hr : r ∈ mapped) :
    r.base + r.length ≤ bumpBase mapped := by
  induction mapped with
  | nil => simp at hr
  | cons r' rest ih =>
      rw [bumpBase]
      rcases List.mem_cons.mp hr with rfl | hr
      · omega
      · exact (ih hr).trans (Nat.le_max_left _ _)

theorem bumpMmap_fresh {mapped : List Mapping} {length base : Nat}
    (hmap : bumpMmap mapped length = .ok base) : Mapping.Fresh mapped ⟨base, length⟩ := by
  unfold bumpMmap at hmap
  split at hmap
  · rename_i hfits
    obtain rfl := Except.ok.inj hmap
    have hge := bumpBase_ge mapped
    refine ⟨by dsimp only; omega, ?_, hfits, fun other hother => Or.inr (end_le_bumpBase hother)⟩
    exact Nat.dvd_trans (by decide) (bumpBase_aligned mapped)
  · simp at hmap

/-- Every request is granted; `munmap` answers the unmaps of `hplf_os_unmap`. -/
def bumpWorld (munmap : Nat → Option Errno) : World where
  sysconf _ := 4096
  mmap _ := bumpMmap
  munmap := munmap
  pthreadOnce _ := none
  pthreadKeyCreate := none
  descriptorSysconf _ := 4096
  descriptorMmap _ := bumpMmap
  pthreadSetspecific _ := none
  descriptorMunmap _ := none
  mmap_fresh _ _ _ _ := bumpMmap_fresh
  descriptorMmap_fresh _ _ _ _ := bumpMmap_fresh

/-- Only the first `n` mappings for slabs and large blocks are granted. -/
def scarceMmap (n call : Nat) (mapped : List Mapping) (length : Nat) : Except Errno Nat :=
  if call < n then bumpMmap mapped length else .error .EAGAIN

theorem scarceMmap_fresh {n call : Nat} {mapped : List Mapping} {length base : Nat}
    (hmap : scarceMmap n call mapped length = .ok base) : Mapping.Fresh mapped ⟨base, length⟩ := by
  unfold scarceMmap at hmap
  split at hmap
  · exact bumpMmap_fresh hmap
  · simp at hmap

/-- A system with memory for `n` slabs and large blocks, and for all cache descriptors. -/
def scarceWorld (n : Nat) : World :=
  { bumpWorld fun _ => none with
    mmap := scarceMmap n
    mmap_fresh := fun _ _ _ _ => scarceMmap_fresh }

end Hplf
