import R503.RustText
import R503.SipHash

/-! The daemon's v2 framing (framing.rs): encoders, strict parsers and verifiers.
A Rust `&str` is its UTF-8 bytes; slice positions are byte offsets. -/
namespace R503.Host

open Text

/-- Counters at or above this value are refused by both ends. -/
def counterCeiling : UInt64 := 0xFFFFFFFFFFFF0000

inductive FramingError where
  | tooShort (bytes : Nat)
  | wrongLeader (expected : Char)
  | missingMacSuffix
  | invalidMac
  | invalidCounter
  | invalidSeq
  | macMismatch
  deriving DecidableEq, Repr

def macSuffixLen : Nat := 3 + 16

def cmdMacInput (counter : UInt64) (cmdLine : Bytes) : Bytes :=
  ascii "CMD " ++ Decimal.render counter.toNat ++ space :: cmdLine

def rspMacInput (counter : UInt64) (seq : UInt32) (bodyLine : Bytes) : Bytes :=
  ascii "RSP " ++ Decimal.render counter.toNat ++ space :: (Decimal.render seq.toNat ++ space :: bodyLine)

def encodeCommand (key : Key) (counter : UInt64) (cmdLine : Bytes) : Bytes :=
  ascii "C " ++ (Decimal.render counter.toNat ++ space :: cmdLine) ++
    (ascii " M " ++ macToHex (siphash24 key (cmdMacInput counter cmdLine)))

def encodeResponse (key : Key) (counter : UInt64) (seq : UInt32) (bodyLine : Bytes) : Bytes :=
  ascii "R " ++ (Decimal.render counter.toNat ++ space :: (Decimal.render seq.toNat ++ space :: bodyLine)) ++
    (ascii " M " ++ macToHex (siphash24 key (rspMacInput counter seq bodyLine)))

/-- `str::is_char_boundary`: not in front of a UTF-8 continuation byte. -/
def isCharBoundary (s : Bytes) (i : Nat) : Bool :=
  match s[i]? with
  | none => i == s.length
  | some b => i == 0 || b < 128 || 192 ≤ b

def u64FromStr (s : Bytes) : Option UInt64 := (natFromStr (2 ^ 64) s).map UInt64.ofNat

def parseStrictU64 (s : Bytes) : Option UInt64 :=
  if s = [] then none
  else if 1 < s.length ∧ s.head? = some Decimal.zero then none
  else if ¬ s.all Decimal.isDigit then none
  else u64FromStr s

def parseStrictU32 (s : Bytes) : Option UInt32 :=
  match parseStrictU64 s with
  | none => none
  | some v => if v > 0xFFFFFFFF then none else some v.toUInt32

def parseMacHex (hex : Bytes) : Except FramingError UInt64 :=
  if hex.length ≠ 16 then .error .invalidMac
  else match Hex.decode hex with
    | none => .error .invalidMac
    | some out => .ok (loadU64Le out)

def splitMacSuffix (s : Bytes) : Except FramingError (Bytes × UInt64) :=
  if s.length < macSuffixLen then .error (.tooShort s.length)
  else
    let splitAt := s.length - macSuffixLen
    if ¬ isCharBoundary s splitAt then .error .missingMacSuffix
    else
      let head := s.take splitAt
      let suffix := s.drop splitAt
      if ¬ (ascii " M ").isPrefixOf suffix then .error .missingMacSuffix
      else match parseMacHex (suffix.drop 3) with
        | .error e => .error e
        | .ok mac => .ok (head,mac)

def splitCounterBody (s : Bytes) : Except FramingError (UInt64 × Bytes) :=
  match find space s with
  | none => .error (.tooShort s.length)
  | some sp =>
    match parseStrictU64 (s.take sp) with
    | none => .error .invalidCounter
    | some counter => .ok (counter,s.drop (sp + 1))

/-- The claimed tag comes back unverified. -/
def parseCommand (line : Bytes) : Except FramingError (UInt64 × Bytes × UInt64) := do
  let rest ← match stripPrefix (ascii "C ") line with
    | none => .error (.wrongLeader 'C')
    | some rest => .ok rest
  let (head,mac) ← splitMacSuffix rest
  let (counter,cmdLine) ← splitCounterBody head
  return (counter,cmdLine,mac)

def verifyCommand (key : Key) (line : Bytes) : Except FramingError (UInt64 × Bytes) := do
  let (counter,cmdLine,claimed) ← parseCommand line
  if siphash24 key (cmdMacInput counter cmdLine) ≠ claimed then .error .macMismatch
  else return (counter,cmdLine)

def parseResponse (line : Bytes) : Except FramingError (UInt64 × UInt32 × Bytes × UInt64) := do
  let rest ← match stripPrefix (ascii "R ") line with
    | none => .error (.wrongLeader 'R')
    | some rest => .ok rest
  let (head,mac) ← splitMacSuffix rest
  let sp1 ← match find space head with
    | none => .error (.tooShort head.length)
    | some sp1 => .ok sp1
  let counter ← match parseStrictU64 (head.take sp1) with
    | none => .error .invalidCounter
    | some counter => .ok counter
  let rest1 := head.drop (sp1 + 1)
  let sp2 ← match find space rest1 with
    | none => .error (.tooShort rest1.length)
    | some sp2 => .ok sp2
  let seq ← match parseStrictU32 (rest1.take sp2) with
    | none => .error .invalidSeq
    | some seq => .ok seq
  return (counter,seq,rest1.drop (sp2 + 1),mac)

def verifyResponse (key : Key) (line : Bytes) : Except FramingError (UInt64 × UInt32 × Bytes) := do
  let (counter,seq,body,claimed) ← parseResponse line
  if siphash24 key (rspMacInput counter seq body) ≠ claimed then .error .macMismatch
  else return (counter,seq,body)

/-! ### Numerals -/

theorem render_all_digits (n : Nat) : (Decimal.render n).all Decimal.isDigit = true :=
  List.all_eq_true.mpr (Decimal.render_digits n)

@[simp] theorem u64FromStr_render (n : UInt64) : u64FromStr (Decimal.render n.toNat) = some n := by
  simp [u64FromStr,natFromStr_render _ _ n.toNat_lt]

@[simp] theorem parseStrictU64_render (n : UInt64) :
    parseStrictU64 (Decimal.render n.toNat) = some n := by
  have lead := (Decimal.render_canonical n.toNat).2.2
  unfold parseStrictU64
  rw [if_neg (Decimal.render_ne_nil _),if_neg (fun h => lead h.1 h.2),
    if_neg (by simp [render_all_digits]),u64FromStr_render]

@[simp] theorem parseStrictU32_render (n : UInt32) :
    parseStrictU32 (Decimal.render n.toNat) = some n := by
  have wide := parseStrictU64_render n.toUInt64
  have small := n.toNat_lt
  rw [UInt32.toNat_toUInt64] at wide
  have fits : ¬ n.toUInt64 > 0xFFFFFFFF := by
    rw [gt_iff_lt,UInt64.lt_iff_toNat_lt,UInt32.toNat_toUInt64]
    simp
    omega
  simp [parseStrictU32,wide,fits]

/-! ### Tags -/

theorem parseMacHex_macToHex (mac : UInt64) : parseMacHex (macToHex mac) = .ok mac := by
  simp [parseMacHex,macToHex,Hex.encode_length]

theorem tail_length (mac : UInt64) : (ascii " M " ++ macToHex mac).length = macSuffixLen := by
  rw [List.length_append,macToHex,Hex.encode_length,toLeBytes_length]
  rfl

@[simp] theorem splitMacSuffix_append (head : Bytes) (mac : UInt64) :
    splitMacSuffix (head ++ (ascii " M " ++ macToHex mac)) = .ok (head,mac) := by
  have total : (head ++ (ascii " M " ++ macToHex mac)).length = head.length + macSuffixLen := by
    rw [List.length_append,tail_length]
  have long : ¬ head.length + macSuffixLen < macSuffixLen := by omega
  have boundary : isCharBoundary (head ++ (ascii " M " ++ macToHex mac)) head.length = true := by
    simp [isCharBoundary,ascii]
  have suffix : (ascii " M ").isPrefixOf (ascii " M " ++ macToHex mac) = true :=
    List.isPrefixOf_iff_prefix.mpr (List.prefix_append _ _)
  have hex : (ascii " M " ++ macToHex mac).drop 3 = macToHex mac := by simp [ascii]
  simp only [splitMacSuffix,total,long,↓reduceIte,Nat.add_sub_cancel,boundary,not_true_eq_false,
    List.take_left,List.drop_left,suffix,hex,parseMacHex_macToHex]

@[simp] theorem splitCounterBody_append (counter : UInt64) (body : Bytes) :
    splitCounterBody (Decimal.render counter.toNat ++ space :: body) = .ok (counter,body) := by
  simp only [splitCounterBody,Decimal.find_space,List.take_left,parseStrictU64_render,
    Decimal.drop_space]

/-! ### Round trips -/

theorem parseCommand_encodeCommand (key : Key) (counter : UInt64) (cmdLine : Bytes) :
    parseCommand (encodeCommand key counter cmdLine) =
      .ok (counter,cmdLine,siphash24 key (cmdMacInput counter cmdLine)) := by
  simp only [parseCommand,encodeCommand,List.append_assoc (ascii "C "),stripPrefix_append,
    splitMacSuffix_append,splitCounterBody_append,bind,Except.bind,pure,Except.pure]

theorem verifyCommand_encodeCommand (key : Key) (counter : UInt64) (cmdLine : Bytes) :
    verifyCommand key (encodeCommand key counter cmdLine) = .ok (counter,cmdLine) := by
  simp [verifyCommand,parseCommand_encodeCommand,bind,Except.bind,pure,Except.pure]

theorem parseResponse_encodeResponse (key : Key) (counter : UInt64) (seq : UInt32) (body : Bytes) :
    parseResponse (encodeResponse key counter seq body) =
      .ok (counter,seq,body,siphash24 key (rspMacInput counter seq body)) := by
  simp only [parseResponse,encodeResponse,List.append_assoc (ascii "R "),stripPrefix_append,
    splitMacSuffix_append,bind,Except.bind,pure,Except.pure,Decimal.find_space,List.take_left,
    parseStrictU64_render,Decimal.drop_space,parseStrictU32_render]

/-- What the encoder writes is accepted back, for every counter, seq and text. -/
theorem verifyResponse_encodeResponse (key : Key) (counter : UInt64) (seq : UInt32) (body : Bytes) :
    verifyResponse key (encodeResponse key counter seq body) = .ok (counter,seq,body) := by
  simp [verifyResponse,parseResponse_encodeResponse,bind,Except.bind,pure,Except.pure]

/-! ### Tagged texts are unambiguous -/

theorem cmdMacInput_injective (c d : UInt64) (s t : Bytes)
    (same : cmdMacInput c s = cmdMacInput d t) : c = d ∧ s = t := by
  simp only [cmdMacInput,List.append_assoc] at same
  obtain ⟨counters,texts⟩ := Decimal.render_space_injective _ _ _ _ (List.append_cancel_left same)
  exact ⟨UInt64.toNat_inj.mp counters,texts⟩

theorem rspMacInput_injective (c d : UInt64) (i j : UInt32) (s t : Bytes)
    (same : rspMacInput c i s = rspMacInput d j t) : c = d ∧ i = j ∧ s = t := by
  simp only [rspMacInput,List.append_assoc] at same
  obtain ⟨counters,rest⟩ := Decimal.render_space_injective _ _ _ _ (List.append_cancel_left same)
  obtain ⟨seqs,texts⟩ := Decimal.render_space_injective _ _ _ _ rest
  exact ⟨UInt64.toNat_inj.mp counters,UInt32.toNat_inj.mp seqs,texts⟩

/-- A command never tags the same text as a response. -/
theorem cmd_ne_rsp (c d : UInt64) (j : UInt32) (s t : Bytes) : cmdMacInput c s ≠ rspMacInput d j t := by
  simp [cmdMacInput,rspMacInput,ascii]

end R503.Host
