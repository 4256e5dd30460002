import R503.FrameBuffers
import R503.FrameGrammar

/-! The texts that both ends must read and tag alike (framing.h, framing.rs): the decimal counters and the inputs
of the tags. -/
namespace R503.Firmware

open Text

/-! ### Counters -/

def mulExact (a b : UInt64) : Option UInt64 := if a.toNat * b.toNat < 2 ^ 64 then some (a * b) else none

def addExact (a b : UInt64) : Option UInt64 := if a.toNat + b.toNat < 2 ^ 64 then some (a + b) else none

def subExact (a b : UInt64) : Option UInt64 := if b.toNat ≤ a.toNat then some (a - b) else none

/-- The loop of `parse_u64` with `none` outside where an operation would wrap. -/
def parseLoopExact : Bytes → UInt64 → Option (Option UInt64)
  | [],v => some (some v)
  | c :: p,v =>
    if c < 48 ∨ c > 57 then some none
    else if v > 0xFFFFFFFFFFFFFFFF / 10 then some none
    else do
      let v ← mulExact v 10
      let room ← subExact 0xFFFFFFFFFFFFFFFF (c - 48).toUInt64
      if v > room then some none else parseLoopExact p (← addExact v (c - 48).toUInt64)

def parseU64Exact (p : Bytes) : Option (Option UInt64) :=
  if p.length = 0 then some none
  else if p.length > 1 ∧ p.head? = some 48 then some none
  else parseLoopExact p 0

theorem mulExact_ten {v : UInt64} (small : v.toNat * 10 < 2 ^ 64) : mulExact v 10 = some (v * 10) := by
  have ten : (10 : UInt64).toNat = 10 := by decide
  rw [mulExact,ten,if_pos small]

theorem addExact_fits {a b : UInt64} (fits : a.toNat + b.toNat < 2 ^ 64) : addExact a b = some (a + b) := by
  rw [addExact,if_pos fits]

theorem subExact_top (d : UInt64) : subExact 0xFFFFFFFFFFFFFFFF d = some (0xFFFFFFFFFFFFFFFF - d) := by
  have bound := d.toNat_lt
  have top : (0xFFFFFFFFFFFFFFFF : UInt64).toNat = 2 ^ 64 - 1 := by decide
  rw [subExact,if_pos (by rw [top]; omega)]

theorem parseLoopExact_eq (p : Bytes) (v : UInt64) : parseLoopExact p v = some (parseLoop p v) := by
  induction p generalizing v with
  | nil => rfl
  | cons c p ih =>
    rw [parseLoopExact,parseLoop]
    by_cases outside : c < 48 ∨ c > 57
    · rw [if_pos outside,if_pos outside]
    rw [if_neg outside,if_neg outside]
    by_cases first : v > 0xFFFFFFFFFFFFFFFF / 10
    · rw [if_pos first,if_pos first]
    rw [if_neg first,if_neg first,mulExact_ten (Nat.lt_of_not_le (mt (first_guard_iff v).mpr first)),
      Option.bind_eq_bind,Option.bind_some]
    rw [subExact_top,Option.bind_some]
    by_cases second : v * 10 > 0xFFFFFFFFFFFFFFFF - (c - 48).toUInt64
    · rw [if_pos second,if_pos second]
    · rw [if_neg second,if_neg second,addExact_fits (Nat.lt_of_not_le (mt (second_guard_iff _ _).mpr second)),
        Option.bind_some]
      exact ih _

theorem parseU64Exact_eq (p : Bytes) : parseU64Exact p = some (parseU64 p) := by
  unfold parseU64Exact parseU64
  split
  · rfl
  split
  · rfl
  exact parseLoopExact_eq p 0

theorem parseU64_canonical_iff (p : Bytes) (v : UInt64) :
    parseU64 p = some v ↔ Decimal.Canonical p ∧ Decimal.value p = v.toNat := by
  rw [parseU64_some_iff]
  constructor
  · rintro rfl
    exact ⟨Decimal.render_canonical _,Decimal.value_render _⟩
  · rintro ⟨canonical,same⟩
    rw [← same,Decimal.render_value p canonical]

theorem parseStrictU64_eq (p : Bytes) : Host.parseStrictU64 p = parseU64 p := by
  refine Option.ext fun v => ?_
  rw [Host.parseStrictU64_some_iff,parseU64_some_iff]

/-- The array of a caller with room for 21 characters. -/
theorem formatU64_string {more : Nat} (n : UInt64) (tmp : Vector UInt8 21) (out : Vector UInt8 (21 + more)) :
    CArray.Gives (Buffers.formatU64 n tmp out 0) fun r => CArray.string r.1 = some (Decimal.render n.toNat) ∧
      r.2 = (Decimal.render n.toNat).length ∧ r.2 ≤ 20 := by
  have few := counter_digits_le n
  refine (Buffers.formatU64_ends n tmp out 0 [] (CArray.filled_nil out) (by omega)).mono fun r both => ?_
  obtain ⟨count,ends⟩ := both
  exact ⟨ends.string (Decimal.separator_not_mem n.toNat 0 rfl),count,count ▸ few⟩

/-- Both ends read exactly the canonical numerals of 64-bit numbers, no operation wraps on the way, and every number
is written as its numeral. -/
theorem decimal_counters_round_trip :
    (∀ p v, parseU64 p = some v ↔ Decimal.Canonical p ∧ Decimal.value p = v.toNat) ∧
    (∀ p, parseU64Exact p = some (parseU64 p)) ∧
    (∀ p, Host.parseStrictU64 p = parseU64 p) ∧
    ∀ (n : UInt64) (more : Nat) (tmp : Vector UInt8 21) (out : Vector UInt8 (21 + more)),
      CArray.Gives (Buffers.formatU64 n tmp out 0) fun r => ∃ s, CArray.string r.1 = some s ∧ r.2 = s.length ∧
        s.length ≤ 20 ∧ Decimal.Canonical s ∧ Decimal.value s = n.toNat := by
  refine ⟨parseU64_canonical_iff,parseU64Exact_eq,parseStrictU64_eq,fun n more tmp out => ?_⟩
  refine (formatU64_string n tmp out).mono fun r both => ?_
  obtain ⟨written,count,few⟩ := both
  exact ⟨_,written,count,count ▸ few,Decimal.render_canonical _,Decimal.value_render _⟩

/-! ### Tags -/

inductive Tagged where
  | command (counter : UInt64) (cmdLine : Bytes)
  | response (counter : UInt64) (seq : UInt32) (bodyLine : Bytes)

def Tagged.macInput : Tagged → Bytes
  | .command counter cmdLine => Host.cmdMacInput counter cmdLine
  | .response counter seq bodyLine => Host.rspMacInput counter seq bodyLine

def computeMac (key : Key) : Tagged → Option Bytes
  | .command counter cmdLine => computeCmdMac key counter cmdLine
  | .response counter seq body => computeRespMac key counter seq body

/-- The Nano tags these inputs as well, if it can build them. -/
theorem computeMac_macInput (key : Key) (tagged : Tagged) (mac : Bytes) (made : computeMac key tagged = some mac) :
    mac = toLeBytes (Host.siphash24 key tagged.macInput) := by
  cases tagged with
  | command counter cmdLine =>
    rw [computeMac,computeCmdMac_eq] at made
    split at made
    · exact (Option.some.inj made).symm
    · cases made
  | response counter seq body =>
    rw [computeMac,computeRespMac_eq] at made
    split at made
    · exact (Option.some.inj made).symm
    · cases made

/-- No two commands or responses are tagged for the same bytes. -/
theorem macInput_injective : Function.Injective Tagged.macInput := by
  intro a b same
  cases a with
  | command c s =>
    cases b with
    | command d t =>
      obtain ⟨rfl,rfl⟩ := Host.cmdMacInput_injective c d s t same
      rfl
    | response d j t => exact absurd same (Host.cmd_ne_rsp c d j s t)
  | response c i s =>
    cases b with
    | command d t => exact absurd same.symm (Host.cmd_ne_rsp d c i t s)
    | response d j t =>
      obtain ⟨rfl,rfl,rfl⟩ := Host.rspMacInput_injective c d i j s t same
      rfl

-- the same bytes after the first word
example : Tagged.macInput (.command 5 (ascii "0 hello")) ≠ Tagged.macInput (.response 5 0 (ascii "hello")) := by
  decide +kernel

end R503.Firmware
