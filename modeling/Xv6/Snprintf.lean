import Xv6.Slab

namespace Xv6

/-- The byte of a character. -/
def ch (c : Char) : UInt8 := UInt8.ofNat c.toNat

/-- A slot of a `va_list`: the 64 bits in it, and the characters of the string it points to, up to the NUL. -/
structure VaSlot where
  word : BitVec 64
  str : List UInt8

/-- The slots that are left. -/
abbrev VaList := Nat → VaSlot

def VaList.rest (ap : VaList) : VaList := fun i => ap (i + 1)

def flagZeropad : Nat := 0x002
def flagNeg : Nat := 0x100

/-- `is_digit` -/
def isDigit (c : UInt8) : Bool := decide (ch '0' ≤ c ∧ c ≤ ch '9')

def digits : List UInt8 := "0123456789abcdef".toList.map ch

/-- The loop on `u64`: the digits in `buf`, from the lowest one. It ends within 64 rounds. -/
def digitLoop (base : Nat) : Nat → Nat → List UInt8
  | 0, _ => []
  | fuel + 1, u64 => if u64 = 0 then [] else digits.getD (u64 % base) 0 :: digitLoop base fuel (u64 / base)

def uintBuf (u64 base : Nat) : List UInt8 :=
  match digitLoop base 64 u64 with
  | [] => [ch '0']
  | buf => buf

/-- The two loops that count `width` down over `buf`, with their padding. -/
def widthLoop (pad : UInt8) (buf : List UInt8) : Nat → List UInt8
  | 0 => []
  | width + 1 => (if buf.length ≤ width then pad else buf.getD width 0) :: widthLoop pad buf width

/-- The characters of `print_uint`. The second test has `|` for `&`. -/
def printUint (u64 base width flag : Nat) : List UInt8 :=
  let buf := uintBuf u64 base
  let sign := if flag &&& flagNeg ≠ 0 then [ch '-'] else []
  if width = 0 then sign ++ buf.reverse
  else if 0 < width ∧ flag ||| flagZeropad ≠ 0 then sign ++ widthLoop (ch '0') buf width
  else if 0 < width then widthLoop (ch ' ') (buf ++ sign) width
  else []

/-- Where the scanner of `vsnprintf` stands: in the `for` loop over the format, at `fmt_loop`, or in the loop
over the digits of a width. -/
inductive Label
  | top | fmtLoop | digitLoop
  deriving DecidableEq, Repr

/-- The scanner between two characters of the format. -/
structure Scan where
  label : Label
  width : Nat
  flag : Nat
  ap : VaList

namespace Scan

def start (ap : VaList) : Scan := ⟨.top, 0, 0, ap⟩

/-- Behind the `switch` the flags and the width are reset. -/
def done (s : Scan) : Scan := .start s.ap

/-- One slot of the argument list was taken. -/
def took (s : Scan) : Scan := .start s.ap.rest

/-- A digit of the width, which is a signed number. -/
def addDigit (s : Scan) (c : UInt8) : Res (List UInt8 × Scan) :=
  let width := s.width * 10 + (c.toNat - (ch '0').toNat)
  if width < 2 ^ 63 then .ok ([], { s with label := .digitLoop, width := width }) else .error .overflow

/-- The `switch` at `fmt_loop`: the characters that are printed, and the scanner behind. An unknown character is
printed as in the `for` loop, and what was read so far stays. -/
def directive (s : Scan) (c : UInt8) : Res (List UInt8 × Scan) :=
  let i64 := (s.ap 0).word
  if c = ch 'd' then
    -- C does not define the negation of the least number either. It is one `dsubu`, which wraps and does not trap, and its only
    -- use is to be stored into `u64`: there it is the magnitude to print. The counters that overflow steer a loop or an address.
    .ok (if i64.toInt < 0 then printUint (-i64).toNat 10 s.width (s.flag ||| flagNeg)
      else printUint i64.toNat 10 s.width s.flag, s.took)
  else if c = ch 'o' then .ok (printUint i64.toNat 8 s.width s.flag, s.took)
  else if c = ch 'x' ∨ c = ch 'p' then .ok (printUint i64.toNat 16 s.width s.flag, s.took)
  else if c = ch 'u' then .ok (printUint i64.toNat 10 s.width s.flag, s.took)
  else if c = ch 'c' then .ok ([UInt8.ofNat i64.toNat], s.took)
  else if c = ch 's' then .ok ((s.ap 0).str, s.took)
  else if c = ch '%' then .ok ([ch '%'], s.done)
  else if c = ch '0' then .ok ([], { s with label := .fmtLoop, flag := s.flag ||| flagZeropad })
  else if isDigit c then s.addDigit c
  else .ok ([ch '%', c], { s with label := .top })

/-- What the next character of the format does. -/
def step (s : Scan) (c : UInt8) : Res (List UInt8 × Scan) :=
  match s.label with
  | .top => .ok (if c = ch '%' then ([], { s with label := .fmtLoop }) else ([c], s))
  | .fmtLoop => s.directive c
  | .digitLoop => if isDigit c then s.addDigit c else s.directive c

end Scan

/-- The buffer, and the number of characters that were stored. -/
structure PrintBuf where
  str : Nat → UInt8
  pos : Nat

/-- Why `vsnprintf` does not come to its last statement: the buffer is full, or something went wrong. -/
inductive Stop
  | full (str : Nat → UInt8)
  | fault (e : Fault)

/-- `set_ch` -/
def setCh (size : Nat) (b : PrintBuf) (c : UInt8) : Except Stop PrintBuf :=
  let str := Function.update b.str b.pos c
  if b.pos + 1 = size then .error (.full (Function.update str (size - 1) 0)) else .ok ⟨str, b.pos + 1⟩

def setChs (size : Nat) (b : PrintBuf) : List UInt8 → Except Stop PrintBuf
  | [] => .ok b
  | c :: cs => do setChs size (← setCh size b c) cs

/-- The loop of `vsnprintf`, over the characters in front of the NUL. A directive that the NUL cuts off is the
default case, which steps over the NUL. -/
def printLoop (size : Nat) : List UInt8 → Scan → PrintBuf → Except Stop PrintBuf
  | [], s, b =>
    if s.label = .top then .ok b
    else do
      let _ ← setChs size b [ch '%', 0]
      .error (.fault .wild)
  | c :: fmt, s, b =>
    match s.step c with
    | .error e => .error (.fault e)
    | .ok (out, s) => do printLoop size fmt s (← setChs size b out)

/-- What is returned as an int, and the buffer: `return size` in `set_ch`, or `pos` less the NUL. -/
def returned (size : Nat) : Except Stop PrintBuf → Res (Int × (Nat → UInt8))
  | .ok b => .ok (wordInt ((b.pos - 1) % 2 ^ 32), b.str)
  | .error (.full str) => .ok (wordInt (size % 2 ^ 32), str)
  | .error (.fault e) => .error e

/-- `vsnprintf` -/
def vsnprintf (str : Nat → UInt8) (size : Nat) (fmt : List UInt8) (ap : VaList) : Res (Int × (Nat → UInt8)) :=
  returned size (do setCh size (← printLoop size fmt (.start ap) ⟨str, 0⟩) 0)

end Xv6
