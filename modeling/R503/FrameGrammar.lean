import R503.HostFraming

/-! Which lines the daemon accepts: each piece of its parsers reads exactly the texts that the
encoders write, but for the case of the tag's letters. -/
namespace R503.Host

open Text

/-! ### Numerals and tags -/

theorem parseStrictU64_some_iff (s : Bytes) (v : UInt64) :
    parseStrictU64 s = some v ↔ s = Decimal.render v.toNat := by
  refine ⟨fun parsed => ?_,fun same => same ▸ parseStrictU64_render v⟩
  unfold parseStrictU64 at parsed
  split at parsed
  · cases parsed
  next nonempty =>
  split at parsed
  · cases parsed
  next lead =>
  split at parsed
  · cases parsed
  next numeric =>
  have digits : ∀ c ∈ s, Decimal.isDigit c := List.all_eq_true.mp (not_not.mp numeric)
  obtain ⟨n,read,rfl⟩ := Option.map_eq_some_iff.mp parsed
  have unsigned : s.head? ≠ some 43 := fun sign => absurd (digits 43 (List.mem_of_head? sign)) (by decide)
  simp only [natFromStr,if_neg unsigned] at read
  split at read
  next fits =>
    obtain rfl := Option.some.inj read
    rw [UInt64.toNat_ofNat_of_lt' fits.2.2]
    exact (Decimal.render_value s ⟨nonempty,digits,fun long isZero => lead ⟨long,isZero⟩⟩).symm
  next => cases read

theorem parseStrictU32_some_iff (s : Bytes) (v : UInt32) :
    parseStrictU32 s = some v ↔ s = Decimal.render v.toNat := by
  refine ⟨fun parsed => ?_,fun same => same ▸ parseStrictU32_render v⟩
  unfold parseStrictU32 at parsed
  split at parsed
  · cases parsed
  next wide read =>
  split at parsed
  · cases parsed
  next small =>
  obtain rfl := Option.some.inj parsed
  have bound : wide.toNat < 2 ^ 32 := by
    have within := mt UInt64.lt_iff_toNat_lt.mpr small
    simp at within
    omega
  rw [(parseStrictU64_some_iff s wide).mp read,UInt64.toNat_toUInt32,Nat.mod_eq_of_lt bound]

theorem toLeBytes_loadU64Le (p : Bytes) (eight : p.length = 8) : toLeBytes (loadU64Le p) = p :=
  loadU64Le_inj (toLeBytes_length _) eight (loadU64Le_toLeBytes _)

theorem parseMacHex_ok_iff (hex : Bytes) (mac : UInt64) :
    parseMacHex hex = .ok mac ↔ hex.map Hex.lower = macToHex mac := by
  constructor
  · intro parsed
    unfold parseMacHex at parsed
    split at parsed
    · cases parsed
    next size =>
    split at parsed
    · cases parsed
    next out decoded =>
    obtain rfl := Except.ok.inj parsed
    have total := Hex.decode_length hex out decoded
    rw [macToHex,toLeBytes_loadU64Le out (by omega)]
    exact (Hex.decode_some_iff hex out).mp decoded
  · intro spelled
    have size : hex.length = 16 := by
      have digits := congrArg List.length spelled
      rwa [List.length_map,macToHex,Hex.encode_length,toLeBytes_length] at digits
    have decoded : Hex.decode hex = some (toLeBytes mac) := (Hex.decode_some_iff _ _).mpr spelled
    simp only [parseMacHex,size,decoded,ne_eq,not_true_eq_false,if_false,loadU64Le_toLeBytes]

/-! ### Frames -/

theorem splitMacSuffix_ok_iff (s head : Bytes) (mac : UInt64) :
    splitMacSuffix s = .ok (head,mac) ↔
      ∃ hex, s = head ++ (ascii " M " ++ hex) ∧ hex.map Hex.lower = macToHex mac := by
  constructor
  · intro split_
    simp only [splitMacSuffix] at split_
    split at split_
    · cases split_
    split at split_
    · cases split_
    split at split_
    · cases split_
    next marker =>
    split at split_
    · cases split_
    next tag parsed =>
    obtain ⟨rfl,rfl⟩ := Prod.mk.inj (Except.ok.inj split_)
    obtain ⟨hex,suffix⟩ := List.isPrefixOf_iff_prefix.mp (not_not.mp marker)
    refine ⟨hex,by rw [suffix,List.take_append_drop],?_⟩
    rw [← suffix] at parsed
    exact (parseMacHex_ok_iff hex tag).mp parsed
  · rintro ⟨hex,rfl,spelled⟩
    have parsed := (parseMacHex_ok_iff hex mac).mpr spelled
    have size : (ascii " M " ++ hex).length = macSuffixLen := by
      rw [← tail_length mac,List.length_append,List.length_append,← spelled,List.length_map]
    have total : (head ++ (ascii " M " ++ hex)).length - macSuffixLen = head.length := by
      rw [List.length_append,size,Nat.add_sub_cancel]
    have long : ¬ (head ++ (ascii " M " ++ hex)).length < macSuffixLen := by
      rw [List.length_append,size]
      omega
    have boundary : isCharBoundary (head ++ (ascii " M " ++ hex)) head.length = true := by
      simp [isCharBoundary,ascii]
    have marker : (ascii " M ").isPrefixOf (ascii " M " ++ hex) = true :=
      List.isPrefixOf_iff_prefix.mpr (List.prefix_append _ _)
    have rest : (ascii " M " ++ hex).drop 3 = hex := by simp [ascii]
    simp only [splitMacSuffix,long,if_false,total,boundary,not_true_eq_false,List.take_left,List.drop_left,marker,
      rest,parsed]

theorem splitCounterBody_ok_iff (s body : Bytes) (counter : UInt64) :
    splitCounterBody s = .ok (counter,body) ↔ s = Decimal.render counter.toNat ++ space :: body := by
  refine ⟨fun split_ => ?_,fun same => same ▸ splitCounterBody_append counter body⟩
  unfold splitCounterBody at split_
  split at split_
  · cases split_
  next sp found =>
  split at split_
  · cases split_
  next c parsed =>
  obtain ⟨rfl,rfl⟩ := Prod.mk.inj (Except.ok.inj split_)
  obtain ⟨_,_,whole⟩ := find_split space s sp found
  rwa [(parseStrictU64_some_iff _ _).mp parsed] at whole

theorem bind_ok_iff (x : Except ε α) (f : α → Except ε β) (b : β) :
    (x >>= f) = .ok b ↔ ∃ a, x = .ok a ∧ f a = .ok b := by
  cases x with
  | error e => simp [bind,Except.bind]
  | ok a => simp [bind,Except.bind]

theorem parseCommand_ok_iff (line cmdLine : Bytes) (counter mac : UInt64) :
    parseCommand line = .ok (counter,cmdLine,mac) ↔
      ∃ hex, line = ascii "C " ++ (Decimal.render counter.toNat ++ space :: cmdLine) ++ (ascii " M " ++ hex) ∧
        hex.map Hex.lower = macToHex mac := by
  unfold parseCommand
  cases leader : stripPrefix (ascii "C ") line with
  | none =>
    refine ⟨fun impossible => (by cases impossible),?_⟩
    rintro ⟨hex,rfl,_⟩
    rw [List.append_assoc,stripPrefix_append] at leader
    cases leader
  | some rest =>
    obtain rfl := (stripPrefix_some_iff _ _ _).mp leader
    simp only [bind_ok_iff,Except.ok.injEq,exists_eq_left',Prod.exists,splitMacSuffix_ok_iff,splitCounterBody_ok_iff,
      pure,Except.pure,Prod.mk.injEq,List.append_assoc,List.append_cancel_left_eq]
    constructor
    · rintro ⟨_,_,⟨hex,rfl,spelled⟩,_,_,rfl,rfl,rfl,rfl⟩
      exact ⟨hex,by rw [List.append_assoc],spelled⟩
    · rintro ⟨hex,rfl,spelled⟩
      exact ⟨_,_,⟨hex,by rw [List.append_assoc],spelled⟩,_,_,rfl,rfl,rfl,rfl⟩

theorem parseResponse_ok_iff (line body : Bytes) (counter mac : UInt64) (seq : UInt32) :
    parseResponse line = .ok (counter,seq,body,mac) ↔
      ∃ hex, line = ascii "R " ++ (Decimal.render counter.toNat ++ space ::
          (Decimal.render seq.toNat ++ space :: body)) ++ (ascii " M " ++ hex) ∧
        hex.map Hex.lower = macToHex mac := by
  constructor
  · intro parsed
    unfold parseResponse at parsed
    cases leader : stripPrefix (ascii "R ") line with
    | none =>
      rw [leader] at parsed
      cases parsed
    | some rest =>
    obtain rfl := (stripPrefix_some_iff _ _ _).mp leader
    simp only [leader,bind_ok_iff,Except.ok.injEq,exists_eq_left',Prod.exists,splitMacSuffix_ok_iff] at parsed
    obtain ⟨head,_,⟨hex,rfl,spelled⟩,parsed⟩ := parsed
    split at parsed
    · cases parsed
    next sp1 first =>
    simp only [bind_ok_iff,Except.ok.injEq,exists_eq_left'] at parsed
    split at parsed
    · cases parsed
    next c cText =>
    simp only [bind_ok_iff,Except.ok.injEq,exists_eq_left'] at parsed
    split at parsed
    · cases parsed
    next sp2 second =>
    simp only [bind_ok_iff,Except.ok.injEq,exists_eq_left'] at parsed
    split at parsed
    · cases parsed
    next n nText =>
    simp only [bind_ok_iff,Except.ok.injEq,exists_eq_left',pure,Except.pure,Prod.mk.injEq] at parsed
    obtain ⟨rfl,rfl,rfl,rfl⟩ := parsed
    obtain ⟨_,_,outer⟩ := find_split space head sp1 first
    obtain ⟨_,_,inner⟩ := find_split space (head.drop (sp1 + 1)) sp2 second
    rw [(parseStrictU32_some_iff _ _).mp nText] at inner
    rw [(parseStrictU64_some_iff _ _).mp cText,inner] at outer
    exact ⟨hex,by rw [← outer,List.append_assoc],spelled⟩
  · rintro ⟨hex,rfl,spelled⟩
    have suffix := (splitMacSuffix_ok_iff _ (Decimal.render counter.toNat ++ space ::
      (Decimal.render seq.toNat ++ space :: body)) mac).mpr ⟨hex,rfl,spelled⟩
    simp only [parseResponse,List.append_assoc (ascii "R "),stripPrefix_append,suffix,bind,Except.bind,pure,
      Except.pure,Decimal.find_space,List.take_left,parseStrictU64_render,Decimal.drop_space,parseStrictU32_render]

theorem verifyCommand_ok_iff (key : Key) (line cmdLine : Bytes) (counter : UInt64) :
    verifyCommand key line = .ok (counter,cmdLine) ↔
      parseCommand line = .ok (counter,cmdLine,siphash24 key (cmdMacInput counter cmdLine)) := by
  simp only [verifyCommand,bind_ok_iff,Prod.exists]
  constructor
  · rintro ⟨c,t,mac,parsed,checked⟩
    split at checked
    · cases checked
    next same =>
    obtain ⟨rfl,rfl⟩ := Prod.mk.inj (Except.ok.inj checked)
    rw [not_not.mp same]
    exact parsed
  · intro parsed
    exact ⟨_,_,_,parsed,if_neg (not_not.mpr rfl)⟩

theorem verifyResponse_ok_iff (key : Key) (line body : Bytes) (counter : UInt64) (seq : UInt32) :
    verifyResponse key line = .ok (counter,seq,body) ↔
      parseResponse line = .ok (counter,seq,body,siphash24 key (rspMacInput counter seq body)) := by
  simp only [verifyResponse,bind_ok_iff,Prod.exists]
  constructor
  · rintro ⟨c,n,t,mac,parsed,checked⟩
    split at checked
    · cases checked
    next same =>
    obtain ⟨rfl,rest⟩ := Prod.mk.inj (Except.ok.inj checked)
    obtain ⟨rfl,rfl⟩ := Prod.mk.inj rest
    rw [not_not.mp same]
    exact parsed
  · intro parsed
    exact ⟨_,_,_,_,parsed,if_neg (not_not.mpr rfl)⟩

def UpToTagCase (line frame : Bytes) : Prop :=
  ∃ head hex tag, line = head ++ hex ∧ frame = head ++ tag ∧ tag.length = 16 ∧
    hex.map Hex.lower = tag.map Hex.lower

theorem lower_macToHex (mac : UInt64) : (macToHex mac).map Hex.lower = macToHex mac :=
  (Hex.decode_some_iff _ _).mp (Hex.decode_encode _)

theorem length_macToHex (mac : UInt64) : (macToHex mac).length = 16 := by
  rw [macToHex,Hex.encode_length,toLeBytes_length]

theorem upToTagCase_iff (line head : Bytes) (mac : UInt64) :
    UpToTagCase line (head ++ (ascii " M " ++ macToHex mac)) ↔
      ∃ hex, line = head ++ (ascii " M " ++ hex) ∧ hex.map Hex.lower = macToHex mac := by
  have tagSize := length_macToHex mac
  constructor
  · rintro ⟨before,hex,tag,rfl,split,size,same⟩
    rw [← List.append_assoc] at split
    obtain ⟨rfl,rfl⟩ := List.append_inj' split (by rw [tagSize,size])
    exact ⟨hex,List.append_assoc ..,same.trans (lower_macToHex mac)⟩
  · rintro ⟨hex,rfl,spelled⟩
    exact ⟨head ++ ascii " M ",hex,macToHex mac,(List.append_assoc ..).symm,(List.append_assoc ..).symm,tagSize,
      spelled.trans (lower_macToHex mac).symm⟩

theorem verifyCommand_accepts (key : Key) (line cmdLine : Bytes) (counter : UInt64) :
    verifyCommand key line = .ok (counter,cmdLine) ↔ UpToTagCase line (encodeCommand key counter cmdLine) := by
  rw [verifyCommand_ok_iff,parseCommand_ok_iff,encodeCommand,upToTagCase_iff]

theorem verifyResponse_accepts (key : Key) (line body : Bytes) (counter : UInt64) (seq : UInt32) :
    verifyResponse key line = .ok (counter,seq,body) ↔
      UpToTagCase line (encodeResponse key counter seq body) := by
  rw [verifyResponse_ok_iff,parseResponse_ok_iff,encodeResponse,upToTagCase_iff]

end R503.Host
