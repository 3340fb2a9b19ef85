import Mathlib

/-!
# Physical memory devices

RAM and the swap devices are `memphy_struct`s. This module has their free-frame
list; the address type is a parameter because `addr_t` is 32 or 64 bits wide
depending on the build.
-/

namespace SimpleOs

/-- `struct memphy_struct`, as far as frames go. -/
structure Memphy (addr : Type) where
  freeFpList : List addr
  deriving DecidableEq, Repr

namespace Memphy

variable {addr : Type}

/-- `MEMPHY_get_freefp`: the frame handed out and the device after it, or `none`
for the return value -1. -/
def getFreefp (mp : Memphy addr) : Option (addr × Memphy addr) :=
  match mp.freeFpList with
  | [] => none
  | fpn :: fps => some (fpn, { mp with freeFpList := fps })

/-- `MEMPHY_put_freefp`. -/
def putFreefp (mp : Memphy addr) (fpn : addr) : Memphy addr :=
  { mp with freeFpList := fpn :: mp.freeFpList }

@[simp] theorem putFreefp_freeFpList (mp : Memphy addr) (fpn : addr) :
    (mp.putFreefp fpn).freeFpList = fpn :: mp.freeFpList := rfl

theorem getFreefp_eq_none_iff (mp : Memphy addr) : mp.getFreefp = none ↔ mp.freeFpList = [] := by
  unfold getFreefp
  split
  · next h => simp [h]
  · next h => simp [h]

end Memphy

end SimpleOs
