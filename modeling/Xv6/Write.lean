import Xv6.Snprintf
import Xv6.Vm

namespace Xv6

def ebadf : Int := 9
def e2big : Int := 7

def stdoutFileno : Int := 1
def stderrFileno : Int := 2

/-- `BUFSIZ` -/
def bufsiz : Nat := 1024

/-- `MAX_WRITE_LEN` -/
def maxWriteLen : Nat := bufsiz

/-- The characters of a string in an object of `n` bytes. -/
def cString (m : ByteMem) : Nat → Nat → Res (List UInt8)
  | 0, _ => .error .wild
  | n + 1, a => if m a = 0 then .ok [] else do .ok (m a :: (← cString m n (a + 1)))

/-- `prom_puts`: what the UART gets. -/
def promPuts (s : Nat → UInt8) : Res (List UInt8) := cString s bufsiz 0

/-- `prom_vprintk`, over what its buffer holds before. -/
def promVprintk (buf : Nat → UInt8) (fmt : List UInt8) (ap : VaList) : Res (Int × List UInt8) := do
  let (result, buf) ← vsnprintf buf bufsiz fmt ap
  .ok (result, ← promPuts buf)

/-- `early_printk`, as `main` sets it. -/
def earlyPrintk : Int := 1

/-- `printk`: the result, and what the UART gets. -/
def printk (buf : Nat → UInt8) (fmt : List UInt8) (ap : VaList) : Res (Int × List UInt8) :=
  if earlyPrintk ≠ 0 then promVprintk buf fmt ap else .ok (0, [])

/-- What comes of `do_write`: what it returns, `*result`, and what the UART gets. -/
structure WriteResult where
  errno : Int
  result : Int
  out : List UInt8
  deriving DecidableEq, Repr

namespace Mm

/-- `copy_from_uvm`; a chunk that is copied to NULL is a wild one. If the range wraps and ends in the page
where it starts, one `memcpy` gets the whole length. -/
def copyFromUvm (k : Mm) (uvaddr kvaddr len : Nat) : Res (Int × Mm) :=
  if uvaddr ≤ xusegEnd ∧ nrPagesSpanned uvaddr len ≠ 0 ∧
      (k.pgd = 0 ∨ kvaddr = 0 ∧ k.heap.pm.uvaddrToKvaddr k.pgd uvaddr ≠ 0) then .error .wild
  else
    let (retcode, pm) := k.heap.pm.copyFromUvm k.pgd uvaddr kvaddr len
    if retcode = 0 ∧ nrPagesSpanned uvaddr len = 1 ∧ pgsize < len then .error .wild
    else .ok (retcode, k.setPm pm)

/-- The `switch` of `do_write`. -/
def writeFd (k : Mm) (stack : Nat → UInt8) (fd : Int) (buf kbuf : Nat) : Res (WriteResult × Mm) :=
  if fd = stdoutFileno ∨ fd = stderrFileno then do
    let (ret, k) ← k.copyFromUvm buf kbuf maxWriteLen
    if ret ≠ 0 then .ok (⟨-e2big, -1, []⟩, k)
    else do
      let mem := Function.update k.heap.pm.mem (kbuf + (maxWriteLen - 1)) 0
      let s ← cString mem maxWriteLen kbuf
      let (result, out) ← printk stack [ch '%', ch 's'] fun _ => ⟨BitVec.ofNat 64 kbuf, s⟩
      .ok (⟨0, result, out⟩, k.setPm { k.heap.pm with mem := mem })
  else .ok (⟨-ebadf, -1, []⟩, k)

/-- `do_write`, over what the stack holds where `prom_vprintk` has its buffer. The length is not looked at. -/
def doWrite (k : Mm) (stack : Nat → UInt8) (fd : Int) (buf _len : Nat) : Res (WriteResult × Mm) :=
  if ¬ buf ≤ xusegEnd then .ok (⟨-efault, -1, []⟩, k)
  else do
    let (kbuf, heap) ← k.heap.kmalloc 0 maxWriteLen
    let (w, k) ← writeFd { k with heap := heap } stack fd buf kbuf
    let heap ← k.heap.kfree kbuf
    .ok (w, { k with heap := heap })

/-- The byte that the user has at an address. -/
def userRead (k : Mm) (v : Nat) : Option UInt8 :=
  let kv := k.heap.pm.uvaddrToKvaddr k.pgd v
  if kv = 0 then none else some (k.heap.pm.mem kv)

end Mm

end Xv6
