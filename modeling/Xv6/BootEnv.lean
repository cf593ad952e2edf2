import Xv6.Slab
import Xv6.Strtoul

namespace Xv6

/-- `*s`. A pointer into a block is given by the bytes from there to the end of the block. -/
def deref : List UInt8 → Res UInt8
  | [] => .error .wild
  | c :: _ => .ok c

def strlen : List UInt8 → Res Nat
  | [] => .error .wild
  | c :: s => if c = 0 then .ok 0 else do .ok ((← strlen s) + 1)

def strncmp : List UInt8 → List UInt8 → Nat → Res Int
  | _, _, 0 => .ok 0
  | c :: s1, d :: s2, n + 1 =>
    if c ≠ d then .ok ((c.toNat : Int) - d.toNat)
    else if c = 0 then .ok 0
    else strncmp s1 s2 n
  | _, _, _ + 1 => .error .wild

/-- The first loop of `strtoul`. -/
def skipSpace : List UInt8 → Res (List UInt8)
  | [] => .error .wild
  | c :: s => if isSpace c then skipSpace s else .ok (c :: s)

/-- The second one: `acc` and `any`. -/
def strtoulScan (base : Nat) : List UInt8 → Nat → Int → Res (Nat × Int)
  | [], _, _ => .error .wild
  | c :: s, acc, any =>
    match strtoulValue c with
    | none => .ok (acc, any)
    | some d =>
      if base ≤ d then .ok (acc, any)
      else if any < 0 then strtoulScan base s acc any
      else if (2 ^ 64 - 1) / base < acc ∨ (acc = (2 ^ 64 - 1) / base ∧ (2 ^ 64 - 1) % base < d) then
        strtoulScan base s (2 ^ 64 - 1) (-1)
      else strtoulScan base s (acc * base + d) 1

/-- The number is marked as a hexadecimal one. -/
def hexMarked (s : List UInt8) (base : Int) : Res Bool := do
  let c ← deref s
  if (base = 0 ∨ base = 16) ∧ c = ch '0' then do
    let x ← deref s.tail
    .ok (decide (x = ch 'x' ∨ x = ch 'X'))
  else .ok false

/-- `strtoul` with every character it reads; `endptr` is NULL. -/
def strtoulRead (nptr : List UInt8) (base : Int) : Res Nat :=
  if base < 0 ∨ base = 1 ∨ 36 < base then .ok 0
  else do
    let s ← skipSpace nptr
    let c ← deref s
    let neg := c = ch '-'
    let s := if neg ∨ c = ch '+' then s.tail else s
    let hex ← hexMarked s base
    let s := if hex then s.drop 2 else s
    let c ← deref s
    let base := if hex then 16 else if base = 0 then (if c = ch '0' then 8 else 10) else base.toNat
    let (acc, any) ← strtoulScan base s 0 0
    .ok (if neg ∧ 0 < any then (2 ^ 64 - acc) % 2 ^ 64 else acc)

/-- `parse_ulong_option`: the value of `*var` after it. -/
def parseUlongOption (envs option : List UInt8) (var : Nat) : Res Nat := do
  let lenOption ← strlen option
  let order ← strncmp envs option lenOption
  if order = 0 then do
    let c ← deref (envs.drop lenOption)
    if c = ch '=' then strtoulRead (envs.drop (lenOption + 1)) 10 else .ok var
  else .ok var

/-- The boot parameters. -/
structure BootParams where
  memsize : Nat
  highmemsize : Nat
  cpuClockFreq : Nat
  busClockFreq : Nat
  memlimit : Nat
  deriving DecidableEq, Repr

def memsizeKey : List UInt8 := ['m', 'e', 'm', 's', 'i', 'z', 'e'].map ch
def highmemsizeKey : List UInt8 := ['h', 'i', 'g', 'h', 'm', 'e', 'm', 's', 'i', 'z', 'e'].map ch
def cpuclockKey : List UInt8 := ['c', 'p', 'u', 'c', 'l', 'o', 'c', 'k'].map ch
def busclockKey : List UInt8 := ['b', 'u', 's', 'c', 'l', 'o', 'c', 'k'].map ch

/-- The loop of `parse_env`, under a bound on its rounds. -/
def parseLoop : Nat → List UInt8 → BootParams → Res BootParams
  | 0, _, _ => .error .diverge
  | fuel + 1, envs, b => do
    let c ← deref envs
    if c = 0 then .ok b
    else
      let memsize ← parseUlongOption envs (memsizeKey ++ [0]) b.memsize
      let highmemsize ← parseUlongOption envs (highmemsizeKey ++ [0]) b.highmemsize
      let cpuClockFreq ← parseUlongOption envs (cpuclockKey ++ [0]) b.cpuClockFreq
      let busClockFreq ← parseUlongOption envs (busclockKey ++ [0]) b.busClockFreq
      let len ← strlen envs
      parseLoop fuel (envs.drop (len + 1)) ⟨memsize, highmemsize, cpuClockFreq, busClockFreq, b.memlimit⟩

/-- `ROUNDUP_TO_POW2`; `fls` takes an unsigned int. -/
def roundupToPow2 (x : Nat) : Nat := 1 <<< fls ((x + 2 ^ 64 - 1) % 2 ^ 32)

/-- `parse_env`, less its message. -/
def parseEnv (fuel : Nat) (envs : List UInt8) (b : BootParams) : Res BootParams := do
  let b ← parseLoop fuel envs b
  .ok { b with memlimit := (roundupToPow2 ((b.highmemsize + b.memsize) % 2 ^ 64) <<< 20) % 2 ^ 64 }

section Reads

variable {text rest : List UInt8}

theorem deref_text : deref (text ++ 0 :: rest) = .ok (text.headD 0) := by
  cases text <;> rfl

theorem strlen_eq (noNul : 0 ∉ text) : strlen (text ++ 0 :: rest) = .ok text.length := by
  induction text with
  | nil => rfl
  | cons c s ih =>
    rw [List.mem_cons, not_or] at noNul
    rw [List.cons_append, strlen, if_neg (Ne.symm noNul.1), ih noNul.2]
    rfl

/-- The comparison finds the strings that start with `option`. -/
theorem strncmp_eq {option : List UInt8} (noNul : 0 ∉ text) (noNul' : 0 ∉ option) :
    ∃ order, strncmp (text ++ 0 :: rest) (option ++ [0]) option.length = .ok order ∧ (order = 0 ↔ option <+: text) := by
  induction option generalizing text with
  | nil => exact ⟨0, by cases text <;> rfl, iff_of_true rfl List.nil_prefix⟩
  | cons d s2 ih =>
    rw [List.mem_cons, not_or] at noNul'
    cases text with
    | nil =>
      have different : (0 : UInt8) ≠ d := noNul'.1
      refine ⟨_, if_pos different, iff_of_false (fun same => different (UInt8.toNat_inj.mp (by omega))) ?_⟩
      simp
    | cons c s1 =>
      rw [List.mem_cons, not_or] at noNul
      obtain ⟨order, run, found⟩ := ih noNul.2 noNul'.2
      by_cases different : c ≠ d
      · refine ⟨_, if_pos different, iff_of_false (fun same => different (UInt8.toNat_inj.mp (by omega))) fun starts => ?_⟩
        exact different (List.cons_prefix_cons.mp starts).1.symm
      · rw [not_not] at different
        subst different
        refine ⟨order, ?_, by rw [found, List.cons_prefix_cons, and_iff_right rfl]⟩
        rw [List.cons_append, List.cons_append, List.length_cons, strncmp, if_neg (not_not.mpr rfl), if_neg (Ne.symm noNul.1), run]

theorem skipSpace_eq : skipSpace (text ++ 0 :: rest) = .ok (text.dropWhile isSpace ++ 0 :: rest) := by
  induction text with
  | nil => rfl
  | cons c s ih =>
    rw [List.cons_append, skipSpace, List.dropWhile_cons]
    split_ifs with space
    · exact ih
    · rfl

theorem strtoulScan_eq (base : Nat) (acc : Nat) (any : Int) :
    strtoulScan base (text ++ 0 :: rest) acc any =
      .ok ((strtoulLoop base text acc any).1, (strtoulLoop base text acc any).2.1) := by
  induction text generalizing acc any with
  | nil => rfl
  | cons c s ih =>
    rw [List.cons_append, strtoulScan, strtoulLoop]
    cases value : strtoulValue c with
    | none => rfl
    | some d =>
      simp only
      split_ifs
      · rfl
      · exact ih ..
      · exact ih ..
      · exact ih ..

theorem headD_eq_iff {x : UInt8} (nonzero : x ≠ 0) : text.headD 0 = x ↔ text.head? = some x := by
  cases text with
  | nil => exact iff_of_false (Ne.symm nonzero) nofun
  | cons c s => simp

theorem tail_text (nonempty : text ≠ []) : (text ++ 0 :: rest).tail = text.tail ++ 0 :: rest :=
  List.tail_append_of_ne_nil nonempty

theorem ne_nil_of_head? {x : UInt8} (found : text.head? = some x) : text ≠ [] := by
  rintro rfl
  cases found

theorem hexMarked_eq (base : Int) :
    hexMarked (text ++ 0 :: rest) base = .ok (decide ((base = 0 ∨ base = 16) ∧ text.head? = some (ch '0') ∧
      (text.tail.head? = some (ch 'x') ∨ text.tail.head? = some (ch 'X')))) := by
  simp only [hexMarked, deref_text, Res.ok_bind, headD_eq_iff (show ch '0' ≠ 0 by decide)]
  by_cases marked : (base = 0 ∨ base = 16) ∧ text.head? = some (ch '0')
  · rw [if_pos marked, tail_text (ne_nil_of_head? marked.2), deref_text, Res.ok_bind]
    simp only [headD_eq_iff (show ch 'x' ≠ 0 by decide), headD_eq_iff (show ch 'X' ≠ 0 by decide), marked, true_and]
  · rw [if_neg marked]
    simp only [← and_assoc, marked, false_and, decide_false]

/-- `strtoul` reads no character behind the NUL. -/
theorem strtoulRead_eq (base : Int) : strtoulRead (text ++ 0 :: rest) base = .ok (strtoul text base).1 := by
  by_cases outside : base < 0 ∨ base = 1 ∨ 36 < base
  · rw [strtoulRead, strtoul, if_pos outside, if_pos outside]
  · rw [strtoulRead, strtoul, if_neg outside, if_neg outside]
    simp only [skipSpace_eq, Res.ok_bind, deref_text, headD_eq_iff (show ch '-' ≠ 0 by decide),
      headD_eq_iff (show ch '+' ≠ 0 by decide)]
    generalize text.dropWhile isSpace = t
    -- behind the sign
    have sign : (if t.head? = some (ch '-') ∨ t.head? = some (ch '+') then (t ++ 0 :: rest).tail else t ++ 0 :: rest) =
        (if t.head? = some (ch '-') ∨ t.head? = some (ch '+') then t.tail else t) ++ 0 :: rest := by
      split_ifs with signed
      · exact tail_text (signed.elim ne_nil_of_head? ne_nil_of_head?)
      · rfl
    rw [sign]
    generalize (if t.head? = some (ch '-') ∨ t.head? = some (ch '+') then t.tail else t) = u
    -- behind the mark
    have mark : (if (base = 0 ∨ base = 16) ∧ u.head? = some (ch '0') ∧
          (u.tail.head? = some (ch 'x') ∨ u.tail.head? = some (ch 'X')) then (u ++ 0 :: rest).drop 2 else u ++ 0 :: rest) =
        (if (base = 0 ∨ base = 16) ∧ u.head? = some (ch '0') ∧
          (u.tail.head? = some (ch 'x') ∨ u.tail.head? = some (ch 'X')) then u.drop 2 else u) ++ 0 :: rest := by
      split_ifs with marked
      · obtain ⟨-, first, second⟩ := marked
        rw [← List.drop_tail, tail_text (ne_nil_of_head? first), List.drop_one,
          tail_text (second.elim ne_nil_of_head? ne_nil_of_head?), ← List.drop_one, List.drop_tail]
      · rfl
    simp only [hexMarked_eq, Res.ok_bind, decide_eq_true_eq, mark, deref_text, headD_eq_iff (show ch '0' ≠ 0 by decide),
      strtoulScan_eq]

end Reads

/-- The value a string of the environment has for a key: what `strtoul` makes of the text behind the first `=`, when the
part in front of it is the key. -/
def optionValue (key text : List UInt8) : Option Nat :=
  if text.takeWhile (· ≠ ch '=') = key ∧ ch '=' ∈ text then some (strtoul (text.dropWhile (· ≠ ch '=')).tail 10).1 else none

/-- The value for a key in the last string that has one. -/
def lastValue (key : List UInt8) (strings : List (List UInt8)) (old : Nat) : Nat :=
  ((strings.filterMap (optionValue key)).getLast?).getD old

/-- The environment in memory: strings with their NUL, and an empty one. -/
def envBlock (strings : List (List UInt8)) : List UInt8 := strings.flatMap (· ++ [0]) ++ [0]

section Option

variable {key text : List UInt8}

theorem takeWhile_key (plain : ch '=' ∉ key) (t : List UInt8) :
    (key ++ t).takeWhile (· ≠ ch '=') = key ++ t.takeWhile (· ≠ ch '=') ∧
      (key ++ t).dropWhile (· ≠ ch '=') = t.dropWhile (· ≠ ch '=') := by
  have all : ∀ c ∈ key, decide (c ≠ ch '=') = true := fun c member => decide_eq_true fun same => plain (same ▸ member)
  exact ⟨List.takeWhile_append_of_pos all, List.dropWhile_append_of_pos all⟩

/-- A string has the key when it starts with it and goes on with `=`. -/
theorem optionValue_append (plain : ch '=' ∉ key) (value : List UInt8) :
    optionValue key (key ++ ch '=' :: value) = some (strtoul value 10).1 := by
  obtain ⟨front, back⟩ := takeWhile_key plain (ch '=' :: value)
  rw [optionValue, front, back, if_pos]
  · simp
  · simp

theorem optionValue_eq_none (plain : ch '=' ∉ key) (other : ∀ value, text ≠ key ++ ch '=' :: value) :
    optionValue key text = none := by
  refine if_neg ?_
  rintro ⟨front, member⟩
  have split := List.takeWhile_append_dropWhile (p := (· ≠ ch '=')) (l := text)
  rw [front] at split
  cases back : text.dropWhile (· ≠ ch '=') with
  | nil =>
    rw [back, List.append_nil] at split
    exact plain (split ▸ member)
  | cons c value =>
    have first : c = ch '=' := by
      have stops := List.head?_dropWhile_not (fun c => decide (c ≠ ch '=')) text
      rw [back] at stops
      simpa using stops
    rw [back, first] at split
    exact other value split.symm

/-- `parse_ulong_option` looks for just these strings. -/
theorem parseUlongOption_eq (noNul : 0 ∉ text) (plain : 0 ∉ key ∧ ch '=' ∉ key) (rest : List UInt8) (var : Nat) :
    parseUlongOption (text ++ 0 :: rest) (key ++ [0]) var = .ok ((optionValue key text).getD var) := by
  obtain ⟨order, compared, found⟩ := @strncmp_eq text rest key noNul plain.1
  rw [parseUlongOption, strlen_eq plain.1, Res.ok_bind, compared, Res.ok_bind]
  by_cases starts : key <+: text
  · rw [if_pos (found.mpr starts)]
    obtain ⟨t, rfl⟩ := starts
    rw [List.append_assoc, List.drop_left, deref_text, Res.ok_bind]
    cases t with
    | nil =>
      rw [if_neg (show ([] : List UInt8).headD 0 ≠ ch '=' by decide), List.append_nil,
        optionValue_eq_none plain.2 (fun value same => by simpa using congrArg List.length same)]
      rfl
    | cons c value =>
      rw [List.headD_cons]
      by_cases equals : c = ch '='
      · rw [if_pos equals, equals, optionValue_append plain.2, ← List.drop_drop, List.drop_left, List.cons_append, List.drop_one,
          List.tail_cons, strtoulRead_eq]
        rfl
      · rw [if_neg equals, optionValue_eq_none plain.2]
        · rfl
        · intro value' same
          exact equals (List.cons.inj (List.append_cancel_left same)).1
  · rw [if_neg (found.not.mpr starts), optionValue_eq_none plain.2]
    · rfl
    · rintro value rfl
      exact starts (List.prefix_append _ _)

end Option

/-- The round of `parse_env` for one string. -/
def BootParams.setOptions (b : BootParams) (text : List UInt8) : BootParams where
  memsize := (optionValue memsizeKey text).getD b.memsize
  highmemsize := (optionValue highmemsizeKey text).getD b.highmemsize
  cpuClockFreq := (optionValue cpuclockKey text).getD b.cpuClockFreq
  busClockFreq := (optionValue busclockKey text).getD b.busClockFreq
  memlimit := b.memlimit

/-- The loop goes through the strings, and stops at the empty one. -/
theorem parseLoop_eq {strings : List (List UInt8)} (plain : ∀ text ∈ strings, text ≠ [] ∧ 0 ∉ text) (rest : List UInt8)
    (b : BootParams) {fuel : Nat} (enough : strings.length < fuel) :
    parseLoop fuel (envBlock strings ++ rest) b = .ok (strings.foldl BootParams.setOptions b) := by
  induction strings generalizing b fuel with
  | nil =>
    obtain ⟨fuel, rfl⟩ := Nat.exists_eq_succ_of_ne_zero (by omega : fuel ≠ 0)
    rfl
  | cons text strings ih =>
    obtain ⟨fuel, rfl⟩ := Nat.exists_eq_succ_of_ne_zero (by omega : fuel ≠ 0)
    obtain ⟨nonempty, noNul⟩ := plain text (List.mem_cons_self ..)
    have next := ih (fun t member => plain t (List.mem_cons_of_mem _ member)) (b.setOptions text)
      (by rw [List.length_cons] at enough; omega : strings.length < fuel)
    have block : envBlock (text :: strings) ++ rest = text ++ 0 :: (envBlock strings ++ rest) := by
      simp [envBlock]
    have first : text.headD 0 ≠ 0 := by
      obtain ⟨c, s, rfl⟩ := List.exists_cons_of_ne_nil nonempty
      rintro (same : c = 0)
      exact noNul (same ▸ List.mem_cons_self ..)
    have behind : (text ++ 0 :: (envBlock strings ++ rest)).drop (text.length + 1) = envBlock strings ++ rest := by
      rw [← List.drop_drop, List.drop_left, List.drop_one, List.tail_cons]
    rw [block, parseLoop, deref_text, Res.ok_bind, if_neg first, parseUlongOption_eq noNul (by decide), Res.ok_bind,
      parseUlongOption_eq noNul (by decide), Res.ok_bind, parseUlongOption_eq noNul (by decide), Res.ok_bind,
      parseUlongOption_eq noNul (by decide), Res.ok_bind, strlen_eq noNul, Res.ok_bind, behind]
    exact next

/-- What the strings do to one parameter. -/
theorem lastValue_concat (key : List UInt8) (strings : List (List UInt8)) (text : List UInt8) (old : Nat) :
    lastValue key (strings ++ [text]) old = (optionValue key text).getD (lastValue key strings old) := by
  rw [lastValue, List.filterMap_append]
  cases value : optionValue key text with
  | none => simp [value, lastValue]
  | some v => simp [value]

theorem foldl_setOptions (strings : List (List UInt8)) (b : BootParams) :
    strings.foldl BootParams.setOptions b =
      ⟨lastValue memsizeKey strings b.memsize, lastValue highmemsizeKey strings b.highmemsize,
        lastValue cpuclockKey strings b.cpuClockFreq, lastValue busclockKey strings b.busClockFreq, b.memlimit⟩ := by
  induction strings using List.reverseRecOn with
  | nil => rfl
  | append_singleton strings text ih =>
    rw [List.foldl_append, ih]
    simp only [List.foldl_cons, List.foldl_nil, BootParams.setOptions, lastValue_concat]

/-- `parse_env` comes to an end, reads the environment only, and leaves for each key the value in the last string that
has it. -/
theorem parseEnv_spec (strings : List (List UInt8)) (plain : ∀ text ∈ strings, text ≠ [] ∧ 0 ∉ text) (b : BootParams) :
    ∃ b', (∀ fuel, strings.length < fuel → ∀ rest, parseEnv fuel (envBlock strings ++ rest) b = .ok b') ∧
      b'.memsize = lastValue memsizeKey strings b.memsize ∧
      b'.highmemsize = lastValue highmemsizeKey strings b.highmemsize ∧
      b'.cpuClockFreq = lastValue cpuclockKey strings b.cpuClockFreq ∧
      b'.busClockFreq = lastValue busclockKey strings b.busClockFreq := by
  obtain ⟨b₁, value⟩ : ∃ b₁, strings.foldl BootParams.setOptions b = b₁ := ⟨_, rfl⟩
  have run : ∀ fuel, strings.length < fuel → ∀ rest, parseEnv fuel (envBlock strings ++ rest) b =
      .ok { b₁ with memlimit := (roundupToPow2 ((b₁.highmemsize + b₁.memsize) % 2 ^ 64) <<< 20) % 2 ^ 64 } := by
    intro fuel enough rest
    rw [parseEnv, parseLoop_eq plain rest b enough, value, Res.ok_bind]
  rw [foldl_setOptions] at value
  subst value
  exact ⟨_, run, rfl, rfl, rfl, rfl⟩

/-- A key is not found at the end of another one, and the last string counts. -/
theorem parseEnv_two : ∃ b', (∀ fuel, 2 < fuel → ∀ rest,
    parseEnv fuel (envBlock [highmemsizeKey ++ [ch '=', ch '5'], highmemsizeKey ++ [ch '=', ch '7']] ++ rest) ⟨256, 0, 0, 0, 0⟩ = .ok b') ∧
    b'.memsize = 256 ∧ b'.highmemsize = 7 := by
  obtain ⟨b', run, memsize, highmemsize, -⟩ := parseEnv_spec
    [highmemsizeKey ++ [ch '=', ch '5'], highmemsizeKey ++ [ch '=', ch '7']] (by decide) ⟨256, 0, 0, 0, 0⟩
  exact ⟨b', run, memsize.trans (by decide), highmemsize.trans (by decide)⟩

end Xv6
