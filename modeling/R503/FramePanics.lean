import R503.FrameGrammar
import R503.RustRun
import R503.Utf8

/-! framing.rs and crypto.rs with every operation that could panic: slices, character
boundaries, indices and checked arithmetic. On a text none of them does. -/
namespace R503.Host.Checked

open Text Rust

variable {ε : Type}

def loadU64Le (p : Bytes) : Run ε UInt64 := do
  asserts (p.length ≥ 8)
  let word ← slice p 0 8
  let word ← toArray 8 word
  return R503.loadU64Le word

def siphash24 (key : Key) (msg : Bytes) : Run ε UInt64 := do
  let low ← slice key.bytes 0 8
  let k0 ← loadU64Le low
  let high ← slice key.bytes 8 16
  let k1 ← loadU64Le high
  let s : SipState := ⟨k0 ^^^ 0x736f6d6570736575,k1 ^^^ 0x646f72616e646f6d,
    k0 ^^^ 0x6c7967656e657261,k1 ^^^ 0x7465646279746573⟩
  let blocks := msg.length / 8
  let s ← (List.range blocks).foldlM (fun s i => do
    let block ← sliceFrom msg (i * 8)
    let m ← loadU64Le block
    return sipAbsorb s m) s
  let tail ← sliceFrom msg (blocks * 8)
  let b ← tail.zipIdx.foldlM (fun b (byte,i) => do
    let shifted ← shlU64 byte.toUInt64 (i * 8)
    return b ||| shifted) (UInt64.ofNat (msg.length % 256) <<< (56 : UInt64))
  return sipFinish (sipAbsorb s b)

/-- `&s[..b]` on a `str`. -/
def strTo (s : Bytes) (b : Nat) : Run ε Bytes :=
  if isCharBoundary s b then returns (.ok (s.take b)) else panics

/-- `&s[a..]` on a `str`. -/
def strFrom (s : Bytes) (a : Nat) : Run ε Bytes :=
  if isCharBoundary s a then returns (.ok (s.drop a)) else panics

def strSplitAt (s : Bytes) (mid : Nat) : Run ε (Bytes × Bytes) :=
  if isCharBoundary s mid then returns (.ok (s.take mid,s.drop mid)) else panics

def encodeCommand (key : Key) (counter : UInt64) (cmdLine : Bytes) : Run ε Bytes := do
  let mac ← siphash24 key (cmdMacInput counter cmdLine)
  return ascii "C " ++ (Decimal.render counter.toNat ++ space :: cmdLine) ++ (ascii " M " ++ macToHex mac)

def encodeResponse (key : Key) (counter : UInt64) (seq : UInt32) (bodyLine : Bytes) : Run ε Bytes := do
  let mac ← siphash24 key (rspMacInput counter seq bodyLine)
  return ascii "R " ++ (Decimal.render counter.toNat ++ space :: (Decimal.render seq.toNat ++ space :: bodyLine)) ++
    (ascii " M " ++ macToHex mac)

def nybble (c : UInt8) : Run ε (Option UInt8) :=
  if 48 ≤ c ∧ c ≤ 57 then do
    let n ← subU8 c 48
    return some n
  else if 97 ≤ c ∧ c ≤ 102 then do
    let n ← addU8 10 c
    let n ← subU8 n 97
    return some n
  else if 65 ≤ c ∧ c ≤ 70 then do
    let n ← addU8 10 c
    let n ← subU8 n 65
    return some n
  else return none

/-- One turn of the loop of `parse_mac_hex`. -/
def hexByte (bytes out : Bytes) (i : Nat) : Run FramingError Bytes := do
  let c ← index bytes (i * 2)
  let c ← nybble c
  let hi ← okOr c .invalidMac
  let c ← index bytes (i * 2 + 1)
  let c ← nybble c
  let lo ← okOr c .invalidMac
  store out i ((hi <<< (4 : UInt8)) ||| lo)

def parseMacHex (hex : Bytes) : Run FramingError UInt64 :=
  if hex.length ≠ 16 then throw .invalidMac
  else do
    let out ← (List.range 8).foldlM (hexByte hex) (List.replicate 8 0)
    return R503.loadU64Le out

def parseStrictU64 (s : Bytes) : Run ε (Option UInt64) :=
  if s = [] then return none
  else do
    let leadingZero ← if s.length > 1 then do
        let c ← index s 0
        pure (c == Decimal.zero)
      else pure false
    if leadingZero then return none
    else if ¬ s.all Decimal.isDigit then return none
    else return u64FromStr s

def parseStrictU32 (s : Bytes) : Run ε (Option UInt32) := do
  match ← parseStrictU64 s with
  | none => return none
  | some v => return if v > 0xFFFFFFFF then none else some v.toUInt32

def splitMacSuffix (s : Bytes) : Run FramingError (Bytes × UInt64) :=
  if s.length < macSuffixLen then throw (.tooShort s.length)
  else do
    let splitAt ← minus s.length macSuffixLen
    if ¬ isCharBoundary s splitAt then throw .missingMacSuffix
    else do
      let (head,suffix) ← strSplitAt s splitAt
      if ¬ (ascii " M ").isPrefixOf suffix then throw .missingMacSuffix
      else do
        let macHex ← strFrom suffix 3
        let mac ← parseMacHex macHex
        return (head,mac)

def splitCounterBody (s : Bytes) : Run FramingError (UInt64 × Bytes) := do
  let sp ← okOr (find space s) (.tooShort s.length)
  let digits ← strTo s sp
  let counter ← parseStrictU64 digits
  let counter ← okOr counter .invalidCounter
  let body ← strFrom s (sp + 1)
  return (counter,body)

def parseCommand (line : Bytes) : Run FramingError (UInt64 × Bytes × UInt64) := do
  let rest ← okOr (stripPrefix (ascii "C ") line) (.wrongLeader 'C')
  let (head,mac) ← splitMacSuffix rest
  let (counter,cmdLine) ← splitCounterBody head
  return (counter,cmdLine,mac)

def verifyCommand (key : Key) (line : Bytes) : Run FramingError (UInt64 × Bytes) := do
  let (counter,cmdLine,claimed) ← parseCommand line
  let expected ← siphash24 key (cmdMacInput counter cmdLine)
  if expected ≠ claimed then throw .macMismatch else return (counter,cmdLine)

def parseResponse (line : Bytes) : Run FramingError (UInt64 × UInt32 × Bytes × UInt64) := do
  let rest ← okOr (stripPrefix (ascii "R ") line) (.wrongLeader 'R')
  let (head,mac) ← splitMacSuffix rest
  let sp1 ← okOr (find space head) (.tooShort head.length)
  let digits ← strTo head sp1
  let counter ← parseStrictU64 digits
  let counter ← okOr counter .invalidCounter
  let rest1 ← strFrom head (sp1 + 1)
  let sp2 ← okOr (find space rest1) (.tooShort rest1.length)
  let digits ← strTo rest1 sp2
  let seq ← parseStrictU32 digits
  let seq ← okOr seq .invalidSeq
  let body ← strFrom rest1 (sp2 + 1)
  return (counter,seq,body,mac)

def verifyResponse (key : Key) (line : Bytes) : Run FramingError (UInt64 × UInt32 × Bytes) := do
  let (counter,seq,body,claimed) ← parseResponse line
  let expected ← siphash24 key (rspMacInput counter seq body)
  if expected ≠ claimed then throw .macMismatch else return (counter,seq,body)

/-! ### No operation panics -/

theorem loadU64Le_returns (p : Bytes) (long : 8 ≤ p.length) :
    (loadU64Le p : Run ε UInt64) = returns (.ok (R503.loadU64Le p)) := by
  have size : (p.take 8).length = 8 := List.length_take_of_le long
  have word : R503.loadU64Le (p.take 8) = R503.loadU64Le p := by
    rw [R503.loadU64Le,R503.loadU64Le,List.take_take,Nat.min_self]
  rw [loadU64Le,asserts_eq _ long,returns_bind_ok,slice_eq _ _ _ (Nat.zero_le _) long,returns_bind_ok,
    List.drop_zero,toArray_eq _ _ size,returns_bind_ok,word,returns_pure]

theorem loadU64Le_slice (s : Bytes) : R503.loadU64Le ((s.take 16).drop 8) = R503.loadU64Le (s.drop 8) := by
  rw [R503.loadU64Le,R503.loadU64Le,List.drop_take,List.take_take,Nat.min_self]

theorem siphash24_returns (key : Key) (msg : Bytes) :
    (siphash24 key msg : Run ε UInt64) = returns (.ok (Host.siphash24 key msg)) := by
  have blocks : msg.length / 8 * 8 ≤ msg.length := Nat.div_mul_le_self _ _
  have low : (key.bytes.take 8).length = 8 := by rw [List.length_take_of_le (by rw [key.size]; decide)]
  have high : ((key.bytes.take 16).drop 8).length = 8 := by simp [key.size]
  have word : R503.loadU64Le (key.bytes.take 8) = R503.loadU64Le key.bytes := by
    rw [R503.loadU64Le,R503.loadU64Le,List.take_take,Nat.min_self]
  have absorb (s : SipState) (i : Nat) (member : i ∈ List.range (msg.length / 8)) :
      ((sliceFrom msg (i * 8) : Run ε Bytes) >>= fun block => loadU64Le block >>= fun m => pure (sipAbsorb s m)) =
        returns (.ok (sipAbsorb s (R503.loadU64Le (msg.drop (i * 8))))) := by
    have inside := List.mem_range.mp member
    rw [sliceFrom_eq _ _ (by omega),returns_bind_ok,
      loadU64Le_returns _ (by rw [List.length_drop]; omega),returns_bind_ok,returns_pure]
  have last (b : UInt64) (x : UInt8 × Nat) (member : x ∈ (msg.drop (msg.length / 8 * 8)).zipIdx) :
      ((shlU64 x.1.toUInt64 (x.2 * 8) : Run ε UInt64) >>= fun shifted => pure (b ||| shifted)) =
        returns (.ok (b ||| x.1.toUInt64 <<< UInt64.ofNat (x.2 * 8))) := by
    have inside := (List.mem_zipIdx' member).1
    rw [List.length_drop] at inside
    rw [shlU64_eq _ _ (by omega),returns_bind_ok,returns_pure]
  rw [siphash24,slice_eq _ _ _ (Nat.zero_le _) (by rw [key.size]; decide),returns_bind_ok,List.drop_zero,
    loadU64Le_returns _ low.ge,returns_bind_ok,slice_eq _ _ _ (by decide) key.size.ge,returns_bind_ok,
    loadU64Le_returns _ high.ge,returns_bind_ok,word,loadU64Le_slice]
  dsimp only
  rw [foldlM_returns _ _ _ absorb,returns_bind_ok,sliceFrom_eq _ _ blocks,returns_bind_ok,
    foldlM_returns _ _ _ last,returns_bind_ok]
  rfl

/-! ### Character boundaries -/

theorem boundary_before {s : Bytes} {i : Nat} {a : UInt8} (here : s[i]? = some a) (small : a < 128) :
    isCharBoundary s i = true := by
  simp [isCharBoundary,here,small]

theorem boundary_after {s : Bytes} {i : Nat} {a : UInt8} (settled : Utf8.Settled s) (here : s[i]? = some a)
    (small : a < 128) : isCharBoundary s (i + 1) = true := by
  unfold isCharBoundary
  cases next : s[i + 1]? with
  | none =>
    have past := List.getElem?_eq_none_iff.mp next
    have within := (List.getElem?_eq_some_iff.mp here).1
    simp only [beq_iff_eq]
    omega
  | some b =>
    have apart := settled.after small here next
    simp only [Utf8.continuation,not_and_or,UInt8.not_le,UInt8.not_lt] at apart
    simpa using apart

theorem at_find {c : UInt8} {s : Bytes} {i : Nat} (found : find c s = some i) : s[i]? = some c := by
  obtain ⟨within,_,split⟩ := find_split c s i found
  rw [split,List.getElem?_append_right (by simp),List.length_take_of_le within.le,Nat.sub_self]
  rfl

theorem strTo_find {c : UInt8} {s : Bytes} {i : Nat} (found : find c s = some i) (small : c < 128) :
    (strTo s i : Run ε Bytes) = returns (.ok (s.take i)) := if_pos (boundary_before (at_find found) small)

theorem strFrom_find {c : UInt8} {s : Bytes} {i : Nat} (settled : Utf8.Settled s) (found : find c s = some i)
    (small : c < 128) : (strFrom s (i + 1) : Run ε Bytes) = returns (.ok (s.drop (i + 1))) :=
  if_pos (boundary_after settled (at_find found) small)

/-! ### The parsers -/

theorem letter_returns (c base : UInt8) (low : base ≤ c) (high : c ≤ 102) :
    (do
      let n ← addU8 10 c
      let n ← subU8 n base
      return some n : Run ε (Option UInt8)) = returns (.ok (some (10 + (c - base)))) := by
  have floor := UInt8.le_iff_toNat_le.mp low
  have ceiling : c.toNat ≤ 102 := UInt8.le_iff_toNat_le.mp high
  have ten : (10 : UInt8).toNat = 10 := rfl
  have sum : (10 + c).toNat = 10 + c.toNat := by
    rw [UInt8.toNat_add,ten]
    exact Nat.mod_eq_of_lt (by omega)
  rw [addU8_eq _ _ (by rw [ten]; omega),returns_bind_ok,
    subU8_eq _ _ (UInt8.le_iff_toNat_le.mpr (by omega)),returns_bind_ok,returns_pure,UInt8.sub_eq_add_neg,
    UInt8.add_assoc,← UInt8.sub_eq_add_neg]

theorem nybble_returns (c : UInt8) : (nybble c : Run ε (Option UInt8)) = returns (.ok (Hex.nybble c)) := by
  unfold nybble Hex.nybble
  split
  next digit => rw [subU8_eq _ _ digit.1,returns_bind_ok,returns_pure]
  split
  next letter => exact letter_returns c 97 letter.1 letter.2
  split
  next letter => exact letter_returns c 65 letter.1 (UInt8.le_trans letter.2 (by decide))
  · rfl

/-- The loop reads the digits two at a time, as the decoder does, and fills the array from the left. -/
theorem hexByte_loop (front rest done : Bytes) (n : Nat) (even : front.length = 2 * done.length)
    (size : rest.length = 2 * n) :
    (List.range' done.length n).foldlM (hexByte (front ++ rest)) (done ++ List.replicate n 0) =
      returns (match Hex.decode rest with
        | none => .error .invalidMac
        | some out => .ok (done ++ out)) := by
  induction n generalizing front rest done with
  | zero =>
    obtain rfl := List.length_eq_zero_iff.mp size
    simp [Hex.decode,returns_pure]
  | succ n ih =>
    obtain _ | ⟨high,_ | ⟨low,rest⟩⟩ := rest
    · simp at size
    · simp at size
      omega
    have here : (front ++ high :: low :: rest)[done.length * 2]? = some high := by
      rw [List.getElem?_append_right (by omega)]
      simp [even,Nat.mul_comm]
    have next : (front ++ high :: low :: rest)[done.length * 2 + 1]? = some low := by
      rw [List.getElem?_append_right (by omega),even,Nat.mul_comm,Nat.add_sub_cancel_left]
      rfl
    rw [List.range'_succ,List.foldlM_cons,hexByte,index_eq _ _ _ here,returns_bind_ok,nybble_returns,returns_bind_ok,
      Hex.decode]
    cases Hex.nybble high with
    | none => rfl
    | some hi =>
    simp only [okOr,returns_bind_ok,index_eq _ _ _ next,nybble_returns]
    cases Hex.nybble low with
    | none => rfl
    | some lo =>
    have room : done.length < (done ++ List.replicate (n + 1) (0 : UInt8)).length := by simp
    have filled : (done ++ List.replicate (n + 1) (0 : UInt8)).set done.length ((hi <<< (4 : UInt8)) ||| lo) =
        (done ++ [(hi <<< (4 : UInt8)) ||| lo]) ++ List.replicate n 0 := by
      rw [List.set_append_right _ _ (Nat.le_refl _),Nat.sub_self,List.replicate_succ,List.set_cons_zero,
        List.append_assoc,List.singleton_append]
    have tail := ih (front ++ [high,low]) rest (done ++ [(hi <<< (4 : UInt8)) ||| lo]) (by simp; omega)
      (by simp at size; omega)
    rw [List.length_append,List.length_singleton,List.append_assoc front] at tail
    rw [returns_bind_ok,store_eq _ _ _ room,returns_bind_ok,filled]
    refine tail.trans ?_
    cases Hex.decode rest with
    | none => rfl
    | some out => simp

theorem parseMacHex_returns (hex : Bytes) : parseMacHex hex = returns (Host.parseMacHex hex) := by
  unfold parseMacHex Host.parseMacHex
  split
  · rfl
  next size =>
  have loop := hexByte_loop [] hex [] 8 rfl (by omega)
  rw [List.length_nil,← List.range_eq_range',List.nil_append,List.nil_append] at loop
  rw [loop]
  cases Hex.decode hex <;> rfl

theorem parseStrictU64_returns (s : Bytes) :
    (parseStrictU64 s : Run ε (Option UInt64)) = returns (.ok (Host.parseStrictU64 s)) := by
  unfold parseStrictU64 Host.parseStrictU64
  split
  · rfl
  next nonempty =>
  obtain ⟨c,rest,rfl⟩ := List.exists_cons_of_ne_nil nonempty
  have lead : (index (c :: rest) 0 : Run ε UInt8) = returns (.ok c) := index_eq _ _ c rfl
  by_cases long : 1 < (c :: rest).length
  · simp only [gt_iff_lt,long,if_true,lead,returns_bind_ok,returns_pure,List.head?_cons,true_and,
      Option.some.injEq,beq_iff_eq,apply_ite returns,apply_ite Except.ok]
  · simp only [gt_iff_lt,long,if_false,returns_pure,returns_bind_ok,false_and,Bool.false_eq_true,
      apply_ite returns,apply_ite Except.ok]

theorem parseStrictU32_returns (s : Bytes) :
    (parseStrictU32 s : Run ε (Option UInt32)) = returns (.ok (Host.parseStrictU32 s)) := by
  rw [parseStrictU32,parseStrictU64_returns,returns_bind_ok,Host.parseStrictU32]
  cases Host.parseStrictU64 s <;> rfl

theorem splitMacSuffix_returns (s : Bytes) (settled : Utf8.Settled s) :
    splitMacSuffix s = returns (Host.splitMacSuffix s) := by
  unfold splitMacSuffix
  dsimp only [Host.splitMacSuffix]
  split
  · rfl
  next long =>
  rw [minus_eq _ _ (by omega),returns_bind_ok]
  split
  · rfl
  next boundary =>
  rw [strSplitAt,if_pos (not_not.mp boundary),returns_bind_ok]
  dsimp only
  split
  · rfl
  next marker =>
  obtain ⟨hex,suffix⟩ := List.isPrefixOf_iff_prefix.mp (not_not.mp marker)
  have blank : (s.drop (s.length - macSuffixLen))[2]? = some space := by
    rw [← suffix]
    rfl
  have start : isCharBoundary (s.drop (s.length - macSuffixLen)) 3 = true :=
    boundary_after (settled.drop _) blank (by decide)
  rw [strFrom,if_pos start,returns_bind_ok,parseMacHex_returns]
  cases Host.parseMacHex ((s.drop (s.length - macSuffixLen)).drop 3) <;> rfl

theorem splitCounterBody_returns (s : Bytes) (settled : Utf8.Settled s) :
    splitCounterBody s = returns (Host.splitCounterBody s) := by
  unfold splitCounterBody Host.splitCounterBody
  cases found : find space s with
  | none => rfl
  | some sp =>
  rw [okOr,returns_bind_ok,strTo_find found (by decide),returns_bind_ok,parseStrictU64_returns,returns_bind_ok,
    strFrom_find settled found (by decide)]
  dsimp only
  cases Host.parseStrictU64 (s.take sp) <;> rfl

theorem strip_settled {pre s rest : Bytes} (settled : Utf8.Settled s) (stripped : stripPrefix pre s = some rest) :
    Utf8.Settled rest := by
  obtain rfl := (stripPrefix_some_iff _ _ _).mp stripped
  exact List.IsChain.right_of_append settled

theorem head_settled {s head : Bytes} {mac : UInt64} (settled : Utf8.Settled s)
    (split_ : Host.splitMacSuffix s = .ok (head,mac)) : Utf8.Settled head := by
  obtain ⟨_,rfl,_⟩ := (splitMacSuffix_ok_iff _ _ _).mp split_
  exact List.IsChain.left_of_append settled

theorem parseCommand_returns (line : Bytes) (settled : Utf8.Settled line) :
    parseCommand line = returns (Host.parseCommand line) := by
  unfold parseCommand Host.parseCommand
  cases stripped : stripPrefix (ascii "C ") line with
  | none => rfl
  | some rest =>
  have inner := strip_settled settled stripped
  rw [okOr,returns_bind_ok,splitMacSuffix_returns rest inner]
  refine returns_bind _ _ _ fun (head,mac) split_ => ?_
  dsimp only
  rw [splitCounterBody_returns head (head_settled inner split_)]
  exact returns_bind _ _ _ fun _ _ => rfl

theorem parseResponse_returns (line : Bytes) (settled : Utf8.Settled line) :
    parseResponse line = returns (Host.parseResponse line) := by
  unfold parseResponse Host.parseResponse
  cases stripped : stripPrefix (ascii "R ") line with
  | none => rfl
  | some rest =>
  have inner := strip_settled settled stripped
  rw [okOr,returns_bind_ok,splitMacSuffix_returns rest inner]
  refine returns_bind _ _ _ fun (head,mac) split_ => ?_
  have front := head_settled inner split_
  dsimp only
  cases first : find space head with
  | none => rfl
  | some sp1 =>
  have blank : space < 128 := by decide
  simp only [okOr,returns_bind_ok,ok_bind,strTo_find first blank,parseStrictU64_returns]
  cases Host.parseStrictU64 (head.take sp1) with
  | none => rfl
  | some counter =>
  simp only [returns_bind_ok,strFrom_find front first blank]
  cases second : find space (head.drop (sp1 + 1)) with
  | none => rfl
  | some sp2 =>
  simp only [returns_bind_ok,strTo_find second blank,parseStrictU32_returns]
  cases Host.parseStrictU32 ((head.drop (sp1 + 1)).take sp2) with
  | none => rfl
  | some seq =>
  simp only [returns_bind_ok,strFrom_find (front.drop _) second blank]
  rfl

theorem verifyCommand_returns (key : Key) (line : Bytes) (settled : Utf8.Settled line) :
    verifyCommand key line = returns (Host.verifyCommand key line) := by
  rw [verifyCommand,parseCommand_returns line settled]
  refine returns_bind _ _ _ fun (counter,cmdLine,claimed) _ => ?_
  dsimp only
  rw [siphash24_returns,returns_bind_ok]
  split <;> rfl

theorem verifyResponse_returns (key : Key) (line : Bytes) (settled : Utf8.Settled line) :
    verifyResponse key line = returns (Host.verifyResponse key line) := by
  rw [verifyResponse,parseResponse_returns line settled]
  refine returns_bind _ _ _ fun (counter,seq,body,claimed) _ => ?_
  dsimp only
  rw [siphash24_returns,returns_bind_ok]
  split <;> rfl

/-! ### Frames of texts -/

theorem render_ascii (n : Nat) : ∀ c ∈ Decimal.render n, c < 128 := fun c member =>
  UInt8.lt_iff_toNat_lt.mpr (((Decimal.isDigit_iff c).mp (Decimal.render_digits n c member)).2.trans_lt (by decide))

theorem tail_ascii (mac : UInt64) : ∀ c ∈ ascii " M " ++ macToHex mac, c < 128 :=
  List.forall_mem_append.mpr ⟨by decide +kernel,fun c member => (Hex.encode_printable _ c member).2⟩

theorem framed_settled (front body : Bytes) (mac : UInt64) (leading : ∀ c ∈ front, c < 128)
    (settled : Utf8.Settled body) (start : ∀ c ∈ body.head?, ¬ Utf8.continuation c) :
    Utf8.Settled (front ++ body ++ (ascii " M " ++ macToHex mac)) :=
  ((Utf8.ascii_settled leading).append settled start).append (Utf8.ascii_settled (tail_ascii mac))
    (Utf8.ascii_start (tail_ascii mac))

theorem encodeCommand_settled (key : Key) (counter : UInt64) (text : List Char) :
    Utf8.Settled (Host.encodeCommand key counter (Utf8.encode text)) := by
  have whole := framed_settled (ascii "C " ++ Decimal.render counter.toNat ++ [space]) (Utf8.encode text)
    (Host.siphash24 key (cmdMacInput counter (Utf8.encode text))) (by
      simp only [List.forall_mem_append]
      exact ⟨⟨by decide +kernel,render_ascii _⟩,by decide +kernel⟩)
    (Utf8.encode_settled text) (Utf8.encode_head text)
  simpa [Host.encodeCommand] using whole

theorem encodeResponse_settled (key : Key) (counter : UInt64) (seq : UInt32) (text : List Char) :
    Utf8.Settled (Host.encodeResponse key counter seq (Utf8.encode text)) := by
  have whole := framed_settled (ascii "R " ++ Decimal.render counter.toNat ++ [space] ++ Decimal.render seq.toNat ++ [space])
    (Utf8.encode text) (Host.siphash24 key (rspMacInput counter seq (Utf8.encode text))) (by
      simp only [List.forall_mem_append]
      exact ⟨⟨⟨⟨by decide +kernel,render_ascii _⟩,by decide +kernel⟩,render_ascii _⟩,by decide +kernel⟩)
    (Utf8.encode_settled text) (Utf8.encode_head text)
  simpa [Host.encodeResponse] using whole

/-- On every text both verifiers return, and they accept exactly what the encoders write but for
the case of the tag's letters. -/
theorem verifiers_accept_encodings (key : Key) (text : List Char) :
    (∃ result, verifyCommand key (Utf8.encode text) = returns result ∧ ∀ counter cmdLine,
      result = .ok (counter,cmdLine) ↔ UpToTagCase (Utf8.encode text) (Host.encodeCommand key counter cmdLine)) ∧
    (∃ result, verifyResponse key (Utf8.encode text) = returns result ∧ ∀ counter seq body,
      result = .ok (counter,seq,body) ↔ UpToTagCase (Utf8.encode text) (Host.encodeResponse key counter seq body)) ∧
    (∀ counter, encodeCommand key counter (Utf8.encode text) >>= verifyCommand key =
      returns (.ok (counter,Utf8.encode text))) ∧
    ∀ counter seq, encodeResponse key counter seq (Utf8.encode text) >>= verifyResponse key =
      returns (.ok (counter,seq,Utf8.encode text)) := by
  have settled := Utf8.encode_settled text
  refine ⟨⟨_,verifyCommand_returns key _ settled,fun counter cmdLine => verifyCommand_accepts ..⟩,
    ⟨_,verifyResponse_returns key _ settled,fun counter seq body => verifyResponse_accepts ..⟩,
    fun counter => ?_,fun counter seq => ?_⟩
  · have encoded : (encodeCommand key counter (Utf8.encode text) : Run FramingError Bytes) =
        returns (.ok (Host.encodeCommand key counter (Utf8.encode text))) := by
      rw [encodeCommand,siphash24_returns,returns_bind_ok]
      rfl
    rw [encoded,returns_bind_ok,verifyCommand_returns key _ (encodeCommand_settled ..),verifyCommand_encodeCommand]
  · have encoded : (encodeResponse key counter seq (Utf8.encode text) : Run FramingError Bytes) =
        returns (.ok (Host.encodeResponse key counter seq (Utf8.encode text))) := by
      rw [encodeResponse,siphash24_returns,returns_bind_ok]
      rfl
    rw [encoded,returns_bind_ok,verifyResponse_returns key _ (encodeResponse_settled ..),verifyResponse_encodeResponse]

end R503.Host.Checked
