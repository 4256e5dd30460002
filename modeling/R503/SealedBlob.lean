import R503.PairingFlows
import R503.RustRun

/-! The file format of `key.tpm` (tpm.rs): three versions of the header over one body. The
parser is modelled with its slices and indices, which panic out of range. -/
namespace R503.Host

open Text Rust

inductive SealPolicy where
  | pcrs (list : List UInt8)
  | none
  deriving DecidableEq

def fileMagicV1 : Bytes := ascii "R503TPM" ++ [1]
def fileMagicV2 : Bytes := ascii "R503TPM" ++ [2]
def fileMagicV3 : Bytes := ascii "R503TPM" ++ [3]

def defaultPcrs : List UInt8 := [7]

inductive BlobError where
  | tooShort (bytes : Nat)
  | truncatedBeforeCount
  | badCount (pcrCount : Nat)
  | truncatedList
  | pcrs (e : PcrError)
  | magicMismatch
  | pubTooLarge (pubLen : Nat)
  | pubOverflow
  | pubTruncated
  | privTooLarge (privLen : Nat)
  | privOverflow
  | lengthMismatch (privLen rest : Nat)
  deriving DecidableEq

/-- Magic and, in version 2, the PCR list. -/
def blobHeader (policy : SealPolicy) : Bytes :=
  let (magic,pcrBytes) : Bytes × Option (List UInt8) := match policy with
    | .pcrs pcrs => if pcrs = defaultPcrs then (fileMagicV1,Option.none) else (fileMagicV2,some pcrs)
    | .none => (fileMagicV3,Option.none)
  match pcrBytes with
  | some pcrs => magic ++ UInt8.ofNat pcrs.length :: pcrs
  | Option.none => magic

def blobField (bytes : Bytes) : Bytes := toLe 4 bytes.length ++ bytes

def serializeBlob (policy : SealPolicy) (pub priv : Bytes) : Bytes :=
  blobHeader policy ++ (blobField pub ++ blobField priv)

def maxField : Nat := 65536

/-- The first half of `deserialize_blob`: the policy, and the offset behind the header. -/
def blobPolicy (blob : Bytes) : Run BlobError (SealPolicy × Nat) := do
  let magic ← slice blob 0 fileMagicV1.length
  if magic = fileMagicV1 then return (.pcrs defaultPcrs,fileMagicV1.length)
  else do
    let magic ← slice blob 0 fileMagicV2.length
    if magic = fileMagicV2 then do
      let off := fileMagicV2.length
      if off ≥ blob.length then throw .truncatedBeforeCount
      else do
        let count ← index blob off
        let pcrCount := count.toNat
        let off := off + 1
        if pcrCount = 0 ∨ pcrCount > 24 then throw (.badCount pcrCount)
        else if off + pcrCount > blob.length then throw .truncatedList
        else do
          let pcrs ← slice blob off (off + pcrCount)
          let off := off + pcrCount
          match validatePcrs pcrs with
          | .error e => throw (.pcrs e)
          | .ok () => return (.pcrs pcrs,off)
    else do
      let magic ← slice blob 0 fileMagicV3.length
      if magic = fileMagicV3 then return (.none,fileMagicV3.length) else throw .magicMismatch

/-- `u32::from_le_bytes(blob[off..off + 4].try_into().unwrap())` -/
def readU32 (blob : Bytes) (off : Nat) : Run BlobError Nat := do
  let bytes ← slice blob off (off + 4)
  let bytes ← toArray 4 bytes
  return fromLe bytes

/-- The second half of `deserialize_blob`: the two fields from `off` to the end. -/
def blobFields (blob : Bytes) (off : Nat) : Run BlobError (Bytes × Bytes) := do
  let pubLen ← readU32 blob off
  if pubLen > maxField then throw (.pubTooLarge pubLen)
  else do
    let off := off + 4
    let pubEnd ← okOr ((checkedAdd off pubLen).bind (checkedAdd · 4)) .pubOverflow
    if pubEnd > blob.length then throw .pubTruncated
    else do
      let pub ← slice blob off (off + pubLen)
      let off := off + pubLen
      let privLen ← readU32 blob off
      if privLen > maxField then throw (.privTooLarge privLen)
      else do
        let off := off + 4
        let blobEnd ← okOr (checkedAdd off privLen) .privOverflow
        if blobEnd ≠ blob.length then do
          let rest ← minus blob.length off
          throw (.lengthMismatch privLen rest)
        else do
          let priv ← slice blob off (off + privLen)
          return (pub,priv)

def deserializeBlob (blob : Bytes) : Run BlobError (SealPolicy × Bytes × Bytes) :=
  if blob.length < fileMagicV1.length + 8 then throw (.tooShort blob.length)
  else do
    let (policy,off) ← blobPolicy blob
    let (pub,priv) ← blobFields blob off
    return (policy,pub,priv)

def policyOfBlob (blob : Bytes) : Run BlobError SealPolicy := do
  let (policy,_) ← deserializeBlob blob
  return policy

/-! ### Headers -/

/-- The headers the parser knows and the policies they stand for. -/
def Leads (front : Bytes) (policy : SealPolicy) : Prop :=
  (front = fileMagicV1 ∧ policy = .pcrs defaultPcrs) ∨
    (∃ pcrs, validatePcrs pcrs = .ok () ∧ front = fileMagicV2 ++ UInt8.ofNat pcrs.length :: pcrs ∧
      policy = .pcrs pcrs) ∨
    (front = fileMagicV3 ∧ policy = .none)

/-- What the serialiser refuses to be asked for: a list that `validate_pcrs` rejects. -/
def SealPolicy.Valid : SealPolicy → Prop
  | .pcrs list => validatePcrs list = .ok ()
  | .none => True

theorem validatePcrs_count (pcrs : List UInt8) (valid : validatePcrs pcrs = .ok ()) :
    0 < pcrs.length ∧ pcrs.length ≤ 24 := by
  unfold validatePcrs at valid
  split at valid
  · cases valid
  next nonempty =>
  split at valid
  · cases valid
  next short => exact ⟨List.length_pos_iff.mpr nonempty,by omega⟩

theorem leads_blobHeader (policy : SealPolicy) (valid : policy.Valid) : Leads (blobHeader policy) policy := by
  cases policy with
  | none => exact .inr (.inr ⟨rfl,rfl⟩)
  | pcrs pcrs =>
    by_cases default : pcrs = defaultPcrs
    · subst default
      exact .inl ⟨rfl,rfl⟩
    · refine .inr (.inl ⟨pcrs,valid,?_,rfl⟩)
      simp [blobHeader,default]

/-- A header is the one that the writer would choose, or a version-2 header of the default list. -/
theorem leads_canonical {front : Bytes} {policy : SealPolicy} (leads : Leads front policy) :
    front = blobHeader policy ∨
      (policy = .pcrs defaultPcrs ∧ front = fileMagicV2 ++ UInt8.ofNat defaultPcrs.length :: defaultPcrs) := by
  rcases leads with ⟨rfl,rfl⟩ | ⟨pcrs,_,rfl,rfl⟩ | ⟨rfl,rfl⟩
  · exact .inl rfl
  · by_cases default : pcrs = defaultPcrs
    · subst default
      exact .inr ⟨rfl,rfl⟩
    · exact .inl (by simp [blobHeader,default])
  · exact .inl rfl

theorem leads_length {front : Bytes} {policy : SealPolicy} (leads : Leads front policy) :
    8 ≤ front.length ∧ front.length ≤ 33 := by
  have v1 : fileMagicV1.length = 8 := rfl
  have v2 : fileMagicV2.length = 8 := rfl
  have v3 : fileMagicV3.length = 8 := rfl
  rcases leads with ⟨rfl,_⟩ | ⟨pcrs,valid,rfl,_⟩ | ⟨rfl,_⟩
  · omega
  · have count := validatePcrs_count pcrs valid
    rw [List.length_append,List.length_cons]
    omega
  · omega

/-- The three comparisons look at the same eight bytes. -/
theorem slice_magic (magic rest : Bytes) (size : magic.length = 8) (n : Nat) (eight : n = 8) :
    (slice (magic ++ rest) 0 n : Run BlobError Bytes) = returns (.ok magic) := by
  rw [eight,← size,slice_eq _ _ _ (Nat.zero_le _) (by simp),List.take_left,List.drop_zero]

/-- The parser reads every header it knows, whatever follows. -/
theorem blobPolicy_leads {front : Bytes} {policy : SealPolicy} (leads : Leads front policy) (rest : Bytes) :
    blobPolicy (front ++ rest) = returns (.ok (policy,front.length)) := by
  unfold blobPolicy
  rcases leads with ⟨rfl,rfl⟩ | ⟨pcrs,valid,rfl,rfl⟩ | ⟨rfl,rfl⟩
  · rw [slice_magic fileMagicV1 rest rfl fileMagicV1.length rfl,returns_bind_ok,if_pos rfl,returns_pure]
  · have count := validatePcrs_count pcrs valid
    have byte : (UInt8.ofNat pcrs.length).toNat = pcrs.length := UInt8.toNat_ofNat_of_lt' (by change _ < 256; omega)
    have listed := slice_middle (ε := BlobError) (fileMagicV2 ++ [UInt8.ofNat pcrs.length]) pcrs rest
    simp only [List.append_assoc,List.cons_append,List.nil_append,List.length_append,List.length_singleton] at listed
    rw [List.append_assoc,List.cons_append,slice_magic fileMagicV2 _ rfl fileMagicV1.length rfl,returns_bind_ok,
      if_neg (by decide),slice_magic fileMagicV2 _ rfl fileMagicV2.length rfl,returns_bind_ok,if_pos rfl]
    dsimp only
    rw [if_neg (by simp),index_middle,returns_bind_ok,byte,if_neg (by omega),if_neg (by simp; omega),listed,
      returns_bind_ok,valid,List.length_append,List.length_cons]
    dsimp only
    rw [returns_pure,Nat.add_assoc,Nat.add_comm 1]
  · rw [slice_magic fileMagicV3 rest rfl fileMagicV1.length rfl,returns_bind_ok,if_neg (by decide),
      slice_magic fileMagicV3 rest rfl fileMagicV2.length rfl,returns_bind_ok,if_neg (by decide),
      slice_magic fileMagicV3 rest rfl fileMagicV3.length rfl,returns_bind_ok,if_pos rfl,returns_pure]

/-- On a blob of the least length the header never panics, and what it returns was there. -/
theorem blobPolicy_returns (blob : Bytes) (long : 16 ≤ blob.length) :
    ∃ result, blobPolicy blob = returns result ∧ ∀ policy off, result = .ok (policy,off) →
      ∃ front rest, blob = front ++ rest ∧ off = front.length ∧ Leads front policy := by
  obtain ⟨magic,rest,rfl,size⟩ : ∃ magic rest, blob = magic ++ rest ∧ magic.length = 8 :=
    ⟨blob.take 8,blob.drop 8,(List.take_append_drop 8 blob).symm,List.length_take_of_le (by omega)⟩
  rw [List.length_append,size] at long
  unfold blobPolicy
  rw [slice_magic magic rest size fileMagicV1.length rfl,returns_bind_ok]
  split
  next v1 =>
    subst v1
    refine ⟨_,rfl,fun policy off ok => ?_⟩
    obtain ⟨rfl,rfl⟩ := Prod.mk.inj (Except.ok.inj ok)
    exact ⟨fileMagicV1,rest,rfl,rfl,.inl ⟨rfl,rfl⟩⟩
  rw [slice_magic magic rest size fileMagicV2.length rfl,returns_bind_ok]
  split
  next v2 =>
    subst v2
    obtain ⟨count,rest,rfl⟩ := List.exists_cons_of_length_pos (show 0 < rest.length by omega)
    dsimp only
    rw [if_neg (by simp),index_middle,returns_bind_ok]
    split
    · exact ⟨_,rfl,fun _ _ ok => by cases ok⟩
    next known =>
    split
    · exact ⟨_,rfl,fun _ _ ok => by cases ok⟩
    next inside =>
    have enough : count.toNat ≤ rest.length := by
      simp only [List.length_append,List.length_cons] at inside
      omega
    obtain ⟨pcrs,rest,rfl,total⟩ : ∃ pcrs tail, rest = pcrs ++ tail ∧ pcrs.length = count.toNat :=
      ⟨rest.take count.toNat,rest.drop count.toNat,(List.take_append_drop _ rest).symm,List.length_take_of_le enough⟩
    have listed := slice_middle (ε := BlobError) (fileMagicV2 ++ [count]) pcrs rest
    simp only [List.append_assoc,List.cons_append,List.nil_append,List.length_append,List.length_singleton,
      total] at listed
    rw [listed,returns_bind_ok]
    cases valid : validatePcrs pcrs with
    | error e => exact ⟨_,rfl,fun _ _ ok => by cases ok⟩
    | ok u =>
    refine ⟨_,rfl,fun policy off ok => ?_⟩
    obtain ⟨rfl,rfl⟩ := Prod.mk.inj (Except.ok.inj ok)
    refine ⟨fileMagicV2 ++ count :: pcrs,rest,by simp,?_,.inr (.inl ⟨pcrs,valid,?_,rfl⟩)⟩
    · rw [List.length_append,List.length_cons,total,Nat.add_assoc,Nat.add_comm 1]
    · rw [total,UInt8.ofNat_toNat]
  rw [slice_magic magic rest size fileMagicV3.length rfl,returns_bind_ok]
  split
  next v3 =>
    subst v3
    refine ⟨_,rfl,fun policy off ok => ?_⟩
    obtain ⟨rfl,rfl⟩ := Prod.mk.inj (Except.ok.inj ok)
    exact ⟨fileMagicV3,rest,rfl,rfl,.inr (.inr ⟨rfl,rfl⟩)⟩
  · exact ⟨_,rfl,fun _ _ ok => by cases ok⟩

/-! ### Fields -/

theorem readU32_at (front word rest : Bytes) (size : word.length = 4) :
    readU32 (front ++ (word ++ rest)) front.length = returns (.ok (fromLe word)) := by
  have whole := slice_middle (ε := BlobError) front word rest
  rw [size] at whole
  rw [readU32,whole,returns_bind_ok,toArray_eq _ _ size,returns_bind_ok,returns_pure]

theorem readU32_short (front rest : Bytes) (short : rest.length < 4) :
    readU32 (front ++ rest) front.length = panics := by
  rw [readU32,slice_short front rest 4 short]
  rfl

theorem split_at_length (s : Bytes) (n : Nat) (enough : n ≤ s.length) : ∃ a b, s = a ++ b ∧ a.length = n :=
  ⟨s.take n,s.drop n,(List.take_append_drop n s).symm,List.length_take_of_le enough⟩

theorem blobField_read {word bytes : Bytes} (size : word.length = 4) (total : bytes.length = fromLe word) :
    word ++ bytes = blobField bytes := by
  rw [blobField,total,← size,toLe_fromLe]

/-- Past the first four bytes every read is checked. -/
theorem blobFields_returns (front rest : Bytes) (long : 4 ≤ rest.length) :
    ∃ result, blobFields (front ++ rest) front.length = returns result ∧ ∀ pub priv, result = .ok (pub,priv) →
      rest = blobField pub ++ blobField priv ∧ pub.length ≤ maxField ∧ priv.length ≤ maxField := by
  obtain ⟨pubWord,rest,rfl,pubSize⟩ := split_at_length rest 4 long
  unfold blobFields
  rw [readU32_at front pubWord rest pubSize,returns_bind_ok]
  dsimp only
  split
  · exact ⟨_,rfl,fun _ _ ok => by cases ok⟩
  next pubSmall =>
  cases sum : (checkedAdd (front.length + 4) (fromLe pubWord)).bind (checkedAdd · 4) with
  | none => exact ⟨_,rfl,fun _ _ ok => by cases ok⟩
  | some pubEnd =>
  obtain ⟨inner,first,second⟩ := Option.bind_eq_some_iff.mp sum
  have pubEnd_eq : pubEnd = front.length + 4 + fromLe pubWord + 4 := by
    simp only [checkedAdd,Option.ite_none_right_eq_some,Option.some.injEq] at first second
    omega
  rw [okOr,returns_bind_ok]
  split
  · exact ⟨_,rfl,fun _ _ ok => by cases ok⟩
  next pubInside =>
  simp only [List.length_append,pubSize,pubEnd_eq] at pubInside
  obtain ⟨pub,rest,rfl,pubTotal⟩ := split_at_length rest (fromLe pubWord) (by omega)
  rw [List.length_append] at pubInside
  obtain ⟨privWord,rest,rfl,privSize⟩ := split_at_length rest 4 (by omega)
  have pubPlace := slice_middle (ε := BlobError) (front ++ pubWord) pub (privWord ++ rest)
  have privPlace := readU32_at (front ++ pubWord ++ pub) privWord rest privSize
  simp only [List.append_assoc,List.length_append,pubSize,pubTotal,← Nat.add_assoc] at pubPlace privPlace
  rw [pubPlace,returns_bind_ok,privPlace,returns_bind_ok]
  split
  · exact ⟨_,rfl,fun _ _ ok => by cases ok⟩
  next privSmall =>
  cases sum : checkedAdd (front.length + 4 + fromLe pubWord + 4) (fromLe privWord) with
  | none => exact ⟨_,rfl,fun _ _ ok => by cases ok⟩
  | some blobEnd =>
  have blobEnd_eq : blobEnd = front.length + 4 + fromLe pubWord + 4 + fromLe privWord := by
    simp only [checkedAdd,Option.ite_none_right_eq_some,Option.some.injEq] at sum
    omega
  rw [okOr,returns_bind_ok]
  split
  · rw [minus_eq _ _ (by simp; omega)]
    exact ⟨_,rfl,fun _ _ ok => by cases ok⟩
  next whole =>
  have privTotal : rest.length = fromLe privWord := by
    have sizes := not_not.mp whole
    simp only [List.length_append,pubSize,privSize,pubTotal,blobEnd_eq] at sizes
    omega
  have lastPlace := slice_middle (ε := BlobError) (front ++ pubWord ++ pub ++ privWord) rest []
  simp only [List.append_assoc,List.append_nil,List.length_append,pubSize,pubTotal,privSize,privTotal,
    ← Nat.add_assoc] at lastPlace
  rw [lastPlace]
  refine ⟨_,rfl,fun pub' priv' ok => ?_⟩
  obtain ⟨rfl,rfl⟩ := Prod.mk.inj (Except.ok.inj ok)
  refine ⟨?_,by omega,by omega⟩
  rw [← blobField_read pubSize pubTotal,← blobField_read privSize privTotal,List.append_assoc]

theorem blobFields_fields (front pub priv : Bytes) (short : front.length ≤ 33) (pubSmall : pub.length ≤ maxField)
    (privSmall : priv.length ≤ maxField) :
    blobFields (front ++ (blobField pub ++ blobField priv)) front.length = returns (.ok (pub,priv)) := by
  have cap : maxField = 65536 := rfl
  have pubWord : fromLe (toLe 4 pub.length) = pub.length := fromLe_toLe 4 _ (by omega)
  have privWord : fromLe (toLe 4 priv.length) = priv.length := fromLe_toLe 4 _ (by omega)
  have first := readU32_at front (toLe 4 pub.length) (pub ++ (toLe 4 priv.length ++ priv)) (toLe_length ..)
  have pubPlace := slice_middle (ε := BlobError) (front ++ toLe 4 pub.length) pub (toLe 4 priv.length ++ priv)
  have second := readU32_at (front ++ toLe 4 pub.length ++ pub) (toLe 4 priv.length) priv (toLe_length ..)
  have privPlace := slice_middle (ε := BlobError) (front ++ toLe 4 pub.length ++ pub ++ toLe 4 priv.length) priv []
  simp only [List.append_assoc,List.append_nil,List.length_append,toLe_length,← Nat.add_assoc]
    at first pubPlace second privPlace
  unfold blobFields blobField
  rw [List.append_assoc,first,returns_bind_ok,pubWord,if_neg (by omega)]
  dsimp only
  rw [checkedAdd_eq _ _ (by omega),Option.bind_some,checkedAdd_eq _ _ (by omega),okOr,returns_bind_ok,
    if_neg (by simp; omega),pubPlace,returns_bind_ok,second,returns_bind_ok,privWord,if_neg (by omega),
    checkedAdd_eq _ _ (by omega),okOr,returns_bind_ok,if_neg (by simp; omega),privPlace,returns_bind_ok]
  rfl

/-! ### The parser -/

/-- A version-2 blob of the least length that ends inside the four bytes behind its PCR list. -/
def CutBehindList (blob : Bytes) : Prop :=
  16 ≤ blob.length ∧ ∃ pcrs rest, validatePcrs pcrs = .ok () ∧
    blob = fileMagicV2 ++ UInt8.ofNat pcrs.length :: pcrs ++ rest ∧ rest.length < 4

theorem leastLength : fileMagicV1.length + 8 = 16 := rfl

theorem deserializeBlob_leads {front : Bytes} {policy : SealPolicy} (leads : Leads front policy) (rest : Bytes)
    (long : 16 ≤ (front ++ rest).length) : deserializeBlob (front ++ rest) =
      blobFields (front ++ rest) front.length >>= fun fields => pure (policy,fields) := by
  rw [deserializeBlob,leastLength,if_neg (Nat.not_lt.mpr long),blobPolicy_leads leads]
  rfl

/-- Only the list of version 2 can use up the bytes that the check at the top saw. -/
theorem deserializeBlob_cut (blob : Bytes) (cut : CutBehindList blob) : deserializeBlob blob = panics := by
  obtain ⟨long,pcrs,rest,valid,rfl,short⟩ := cut
  rw [deserializeBlob_leads (.inr (.inl ⟨pcrs,valid,rfl,rfl⟩)) rest long,blobFields,readU32_short _ _ short]
  rfl

theorem deserializeBlob_returns (blob : Bytes) (whole : ¬ CutBehindList blob) :
    ∃ result, deserializeBlob blob = returns result ∧ ∀ policy pub priv, result = .ok (policy,pub,priv) →
      ∃ front, Leads front policy ∧ blob = front ++ (blobField pub ++ blobField priv) := by
  by_cases long : 16 ≤ blob.length
  · obtain ⟨header,parsed,known⟩ := blobPolicy_returns blob long
    rw [deserializeBlob,leastLength,if_neg (Nat.not_lt.mpr long),parsed]
    cases header with
    | error e => exact ⟨_,rfl,fun _ _ _ ok => by cases ok⟩
    | ok found =>
    obtain ⟨policy,off⟩ := found
    obtain ⟨front,rest,rfl,rfl,leads⟩ := known policy off rfl
    have room : 4 ≤ rest.length := by
      rw [List.length_append] at long
      rcases leads with ⟨rfl,_⟩ | ⟨pcrs,valid,rfl,_⟩ | ⟨rfl,_⟩
      · have eight : fileMagicV1.length = 8 := rfl
        omega
      · by_contra short
        exact whole ⟨by rw [List.length_append]; exact long,pcrs,rest,valid,rfl,not_le.mp short⟩
      · have eight : fileMagicV3.length = 8 := rfl
        omega
    obtain ⟨fields,read,exact_⟩ := blobFields_returns front rest room
    rw [returns_bind_ok]
    dsimp only
    rw [read]
    cases fields with
    | error e => exact ⟨_,rfl,fun _ _ _ ok => by cases ok⟩
    | ok body =>
    obtain ⟨pub,priv⟩ := body
    refine ⟨_,rfl,fun policy' pub' priv' ok => ?_⟩
    obtain ⟨rfl,same⟩ := Prod.mk.inj (Except.ok.inj ok)
    obtain ⟨rfl,rfl⟩ := Prod.mk.inj same
    exact ⟨front,leads,by rw [← (exact_ pub priv rfl).1]⟩
  · rw [deserializeBlob,leastLength,if_pos (not_le.mp long)]
    exact ⟨_,rfl,fun _ _ _ ok => by cases ok⟩

/-- Both functions return on exactly the blobs that are not cut right behind a PCR list. -/
theorem blob_parser_total_iff (blob : Bytes) :
    ((∃ result, deserializeBlob blob = returns result) ∧ ∃ result, policyOfBlob blob = returns result) ↔
      ¬ CutBehindList blob := by
  constructor
  · rintro ⟨⟨result,returned⟩,_⟩ cut
    exact panics_ne_returns result ((deserializeBlob_cut blob cut).symm.trans returned)
  · intro whole
    obtain ⟨result,returned,_⟩ := deserializeBlob_returns blob whole
    refine ⟨⟨result,returned⟩,?_⟩
    rw [policyOfBlob,returned]
    cases result with
    | error e => exact ⟨_,rfl⟩
    | ok found => exact ⟨_,rfl⟩

/-- Sixteen bytes: the magic, a count of seven and the list 0 to 6. -/
theorem cut_blob_panics : deserializeBlob (fileMagicV2 ++ [7,0,1,2,3,4,5,6]) = panics ∧
    policyOfBlob (fileMagicV2 ++ [7,0,1,2,3,4,5,6]) = panics := ⟨rfl,rfl⟩

/-- What the writer makes is read back; what is read back is what the writer makes of it, but for
the default list spelt out in version 2. -/
theorem blob_round_trip :
    (∀ policy pub priv, policy.Valid → pub.length ≤ maxField → priv.length ≤ maxField →
      deserializeBlob (serializeBlob policy pub priv) = returns (.ok (policy,pub,priv))) ∧
    ∀ blob policy pub priv, deserializeBlob blob = returns (.ok (policy,pub,priv)) →
      serializeBlob policy pub priv = blob ∨
        policy = .pcrs defaultPcrs ∧ ∃ body, blob = fileMagicV2 ++ 1 :: 7 :: body ∧
          serializeBlob policy pub priv = fileMagicV1 ++ body := by
  constructor
  · intro policy pub priv valid pubSmall privSmall
    have leads := leads_blobHeader policy valid
    have front := leads_length leads
    have long : 16 ≤ (blobHeader policy ++ (blobField pub ++ blobField priv)).length := by
      simp only [blobField,List.length_append,toLe_length]
      omega
    rw [serializeBlob,deserializeBlob_leads leads _ long,blobFields_fields _ pub priv front.2 pubSmall privSmall]
    rfl
  · intro blob policy pub priv accepted
    have whole : ¬ CutBehindList blob := fun cut =>
      panics_ne_returns _ ((deserializeBlob_cut blob cut).symm.trans accepted)
    obtain ⟨result,returned,known⟩ := deserializeBlob_returns blob whole
    obtain ⟨front,leads,rfl⟩ := known policy pub priv (returns_inj (returned.symm.trans accepted))
    rcases leads_canonical leads with rfl | ⟨rfl,rfl⟩
    · exact .inl rfl
    · exact .inr ⟨rfl,_,rfl,rfl⟩

theorem blob_round_trip_default :
    deserializeBlob (serializeBlob (.pcrs [0,4,7,11]) [1,2,3] [9,8]) = returns (.ok (.pcrs [0,4,7,11],[1,2,3],[9,8])) ∧
      (serializeBlob (.pcrs defaultPcrs) [5] [6] = fileMagicV2 ++ [1,7,1,0,0,0,5,1,0,0,0,6] ∨
        (SealPolicy.pcrs defaultPcrs) = .pcrs defaultPcrs ∧
          ∃ body, fileMagicV2 ++ [1,7,1,0,0,0,5,1,0,0,0,6] = fileMagicV2 ++ 1 :: 7 :: body ∧
            serializeBlob (.pcrs defaultPcrs) [5] [6] = fileMagicV1 ++ body) :=
  ⟨blob_round_trip.1 _ _ _ rfl (by decide) (by decide),blob_round_trip.2 _ _ _ _ rfl⟩

end R503.Host
