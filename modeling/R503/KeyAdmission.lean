import R503.KeystoreWrites

/-! Which key files `load_key` admits, and what `save_key` leaves for it (keystore.rs). The mask for `key.bak` lets
an owner-writable backup pass, and neither candidate has to be a regular file. -/
namespace R503.Host

open Text Firmware Fallible

/-! ### Loading -/

def isHexDigit (c : UInt8) : Bool := (48 ≤ c && c ≤ 57) || (65 ≤ c && c ≤ 70) || (97 ≤ c && c ≤ 102)

/-- The documented conditions on what is no link: none of the lowest `closed` permission bits is set, which are those
of group and other up to 6, and from there the owner's execute and write bits. -/
structure Admissible (closed : Nat) (n : Disk.Inode) (digits : Bytes) : Prop where
  root : n.uid = 0
  denied : ∀ bit < closed, n.mode.testBit bit = false
  text : ∃ bytes, n.body.read = .done bytes ∧ isUtf8 bytes = true ∧ trim bytes = digits
  size : digits.length = 32
  hex : ∀ c ∈ digits, isHexDigit c = true

def AdmissibleAt (closed : Nat) (entry : Option (Disk.Entry Path)) (digits : Bytes) : Prop :=
  ∃ n, entry = some (.node n) ∧ Admissible closed n digits

/-- It passes the guard, and then opening or reading it does not return. -/
def Blocks (closed : Nat) (entry : Option (Disk.Entry Path)) : Prop :=
  ∃ n, entry = some (.node n) ∧ n.uid = 0 ∧ (∀ bit < closed, n.mode.testBit bit = false) ∧ n.body.read = .never

def Decodes (digits : Bytes) (k : Key) : Prop := digits.map Hex.lower = keyHex k

/-- The first admissible file decodes to `k`, where of `key.bak` the lowest `closed` bits must not be set. -/
def FirstDecodes (closed : Nat) (key keyBak : Option (Disk.Entry Path)) (k : Key) : Prop :=
  (∃ digits, AdmissibleAt 6 key digits ∧ Decodes digits k) ∨
    (∀ digits, ¬ AdmissibleAt 6 key digits) ∧ ∃ digits, AdmissibleAt closed keyBak digits ∧ Decodes digits k

/-- The key of the first admissible file is returned, and `None` if there is none. -/
structure Documented (d : HostFiles) : Prop where
  some : ∀ k, loadKey d = .done k ↔ FirstDecodes 8 (d .key) (d .keyBak) k
  none : (∀ k, ¬ FirstDecodes 8 (d .key) (d .keyBak) k) → loadKey d = .failed

theorem testBit_0o777 (bit : Nat) : Nat.testBit 0o777 bit = decide (bit < 9) := Nat.testBit_two_pow_sub_one 9 bit

theorem mask_low (mode n : Nat) (small : n ≤ 9) :
    mode &&& 0o777 &&& (2 ^ n - 1) = 0 ↔ ∀ bit < n, mode.testBit bit = false := by
  constructor
  · intro clear bit below
    have here := congrArg (Nat.testBit · bit) clear
    simpa [Nat.testBit_and,testBit_0o777,Nat.testBit_two_pow_sub_one,below,below.trans_le small] using here
  · intro denied
    refine Nat.eq_of_testBit_eq fun bit => ?_
    rw [Nat.zero_testBit,Nat.testBit_and,Nat.testBit_and,Nat.testBit_two_pow_sub_one]
    by_cases below : bit < n
    · rw [denied bit below]
      rfl
    · rw [decide_eq_false below,Bool.and_false]

theorem nybble_isHexDigit (c : UInt8) : (Hex.nybble c).isSome = isHexDigit c := by
  revert c; apply Hex.forall_byte; decide +kernel

theorem decode_digits (s : Bytes) (even : s.length % 2 = 0) :
    (∃ bytes, Hex.decode s = some bytes) ↔ ∀ c ∈ s, isHexDigit c = true := by
  induction s using Hex.decode.induct with
  | case1 => exact iff_of_true ⟨[],rfl⟩ fun _ none => by cases none
  | case2 c => cases even
  | case3 high low rest ih =>
    rw [List.length_cons,List.length_cons] at even
    rw [List.forall_mem_cons,List.forall_mem_cons,← ih (by omega),← nybble_isHexDigit,← nybble_isHexDigit,Hex.decode]
    cases Hex.nybble high with
    | none => simp
    | some h =>
      cases Hex.nybble low with
      | none => simp
      | some l => cases Hex.decode rest <;> simp

theorem parseKeyHex_iff (digits : Bytes) (k : Key) :
    parseKeyHex digits = some k ↔ digits.length = 32 ∧ Decodes digits k := by
  unfold parseKeyHex Decodes keyHex
  rw [← Hex.decode_some_iff]
  by_cases size : digits.length = 32
  · rw [if_neg (not_not.mpr size),and_iff_right size]
    cases decoded : Hex.decode digits with
    | none => simp
    | some bytes =>
      have sixteen : bytes.length = 16 := by
        have double := Hex.decode_length digits bytes decoded
        omega
      simp only [dif_pos sixteen,Option.some.injEq]
      exact ⟨fun same => same ▸ rfl,fun same => Key.ext same⟩
  · rw [if_pos size]
    exact iff_of_false (by simp) fun both => size both.1

/-- 32 digits are a key. -/
theorem decodes_exists {digits : Bytes} (size : digits.length = 32) (hex : ∀ c ∈ digits, isHexDigit c = true) :
    ∃ k, Decodes digits k := by
  obtain ⟨bytes,decoded⟩ := (decode_digits digits (by rw [size])).mpr hex
  have sixteen : bytes.length = 16 := by
    have double := Hex.decode_length digits bytes decoded
    omega
  exact ⟨⟨bytes,sixteen⟩,(Hex.decode_some_iff digits bytes).mp decoded⟩

section
variable {closed : Nat} {entry : Option (Disk.Entry Path)} {n : Disk.Inode} {digits : Bytes}

/-- The guard under a mask of the lowest bits. -/
theorem guarded_iff (small : closed ≤ 9) (n : Disk.Inode) :
    Guarded (2 ^ closed - 1) n ↔ n.uid = 0 ∧ ∀ bit < closed, n.mode.testBit bit = false := by
  rw [Guarded,mask_low n.mode closed small]

/-- One candidate of `load_key`. -/
theorem loadKeyFrom_iff (closed : Nat) (small : closed ≤ 9) (entry : Option (Disk.Entry Path)) (k : Key) :
    loadKeyFrom entry (2 ^ closed - 1) = .done k ↔ ∃ digits, AdmissibleAt closed entry digits ∧ Decodes digits k := by
  rcases entry with _ | ⟨q | n⟩
  · exact iff_of_false (by simp [loadKeyFrom,readKeyFileGuarded]) (by rintro ⟨_,⟨_,never,_⟩,_⟩; cases never)
  · exact iff_of_false (by simp [loadKeyFrom,readKeyFileGuarded]) (by rintro ⟨_,⟨_,never,_⟩,_⟩; cases never)
  rw [loadKeyFrom_done_iff,guarded_iff small]
  constructor
  · rintro ⟨⟨root,denied⟩,text,read,utf8,parsed⟩
    obtain ⟨size,decodes⟩ := (parseKeyHex_iff _ _).mp parsed
    have decoded := (Hex.decode_some_iff _ _).mpr decodes
    exact ⟨trim text,⟨n,rfl,root,denied,⟨text,read,utf8,rfl⟩,size,
      (decode_digits _ (by rw [size])).mp ⟨_,decoded⟩⟩,decodes⟩
  · rintro ⟨digits,⟨m,same,admissible⟩,decodes⟩
    cases same
    obtain ⟨text,read,utf8,rfl⟩ := admissible.text
    exact ⟨⟨admissible.root,admissible.denied⟩,text,read,utf8,(parseKeyHex_iff _ k).mpr ⟨admissible.size,decodes⟩⟩

theorem loadKeyFrom_never_iff (small : closed ≤ 9) (entry : Option (Disk.Entry Path)) :
    loadKeyFrom entry (2 ^ closed - 1) = .never ↔ Blocks closed entry := by
  constructor
  · intro stuck
    rcases entry with _ | ⟨q | n⟩
    · cases stuck
    · cases stuck
    by_cases guarded : Guarded (2 ^ closed - 1) n
    · obtain ⟨root,denied⟩ := (guarded_iff small n).mp guarded
      refine ⟨n,rfl,root,denied,?_⟩
      rw [loadKeyFrom,readKeyFileGuarded_node guarded] at stuck
      cases read : n.body.read with
      | never => rfl
      | failed =>
        rw [read] at stuck
        cases stuck
      | done text =>
        rw [read] at stuck
        dsimp only at stuck
        cases valid : isUtf8 text with
        | false => simp [valid] at stuck
        | true =>
          simp only [valid,if_true] at stuck
          split at stuck <;> cases stuck
    · rw [loadKeyFrom_refused guarded] at stuck
      cases stuck
  · rintro ⟨n,rfl,root,denied,endless⟩
    rw [loadKeyFrom,readKeyFileGuarded_node ((guarded_iff small n).mpr ⟨root,denied⟩),endless]

theorem loadKeyFrom_failed_iff (closed : Nat) (small : closed ≤ 9) (entry : Option (Disk.Entry Path)) :
    loadKeyFrom entry (2 ^ closed - 1) = .failed ↔
      (∀ digits, ¬ AdmissibleAt closed entry digits) ∧ ¬ Blocks closed entry := by
  have loads := loadKeyFrom_iff closed small entry
  have blocks := loadKeyFrom_never_iff small entry
  cases result : loadKeyFrom entry (2 ^ closed - 1) with
  | done k =>
    obtain ⟨digits,admissible,_⟩ := (loads k).mp result
    exact iff_of_false (by simp) fun none_ => none_.1 digits admissible
  | never => exact iff_of_false (by simp) fun none_ => none_.2 (blocks.mp result)
  | failed =>
    refine iff_of_true rfl ⟨fun digits admissible => ?_,fun stuck => ?_⟩
    · obtain ⟨n,here,conditions⟩ := admissible
      obtain ⟨k,decodes⟩ := decodes_exists conditions.size conditions.hex
      rw [(loads k).mpr ⟨digits,⟨n,here,conditions⟩,decodes⟩] at result
      cases result
    · rw [blocks.mpr stuck] at result
      cases result

theorem Admissible.of_ownerWrite (admissible : Admissible 7 n digits) (readOnly : n.mode.testBit 7 = false) :
    Admissible 8 n digits :=
  { admissible with
    denied := fun bit below => by
      rcases Nat.lt_succ_iff_lt_or_eq.mp below with lower | rfl
      · exact admissible.denied bit lower
      · exact readOnly }

theorem Admissible.weaken (admissible : Admissible 8 n digits) : Admissible 7 n digits :=
  { admissible with denied := fun bit below => admissible.denied bit (below.trans (by decide)) }

/-- What blocks is not admissible. -/
theorem Blocks.refused (blocks : Blocks closed entry) (less : Nat) (digits : Bytes) : ¬ AdmissibleAt less entry digits := by
  rintro ⟨m,same,admissible⟩
  obtain ⟨n,rfl,_,_,endless⟩ := blocks
  obtain ⟨text,read,_⟩ := admissible.text
  cases same
  rw [read] at endless
  cases endless

end

section
variable {d : HostFiles}

theorem documented_first {digits : Bytes} (admissible : AdmissibleAt 6 (d .key) digits) : Documented d := by
  have first (k : Key) := loadKeyFrom_iff 6 (by decide) (d .key) k
  obtain ⟨n,here,conditions⟩ := admissible
  obtain ⟨k,decodes⟩ := decodes_exists conditions.size conditions.hex
  have found : ∃ digits, AdmissibleAt 6 (d .key) digits ∧ Decodes digits k := ⟨digits,⟨n,here,conditions⟩,decodes⟩
  have result : loadKeyFrom (d .key) 0o077 = .done k := (first k).mpr found
  have loaded : loadKey d = .done k := by rw [loadKey,result]
  refine ⟨fun k' => ?_,fun never => absurd (.inl found) (never k)⟩
  rw [loaded,SysCall.done.injEq]
  constructor
  · rintro rfl
    exact .inl found
  · rintro (other | ⟨none_,_⟩)
    · exact SysCall.done.inj (result.symm.trans ((first k').mpr other))
    · exact absurd ⟨n,here,conditions⟩ (none_ digits)

/-- A load that does not return is no load. -/
theorem documented_returns (documented : Documented d) : loadKey d ≠ .never := by
  intro stuck
  by_cases some_ : ∃ k, FirstDecodes 8 (d .key) (d .keyBak) k
  · obtain ⟨k,decodes⟩ := some_
    have loaded := (documented.some k).mpr decodes
    rw [stuck] at loaded
    cases loaded
  · have none_ := documented.none (not_exists.mp some_)
    rw [stuck] at none_
    cases none_

/-- Where `key` is passed over, `key.bak` decides. -/
theorem documented_backup_iff (refused : ∀ digits, ¬ AdmissibleAt 6 (d .key) digits) (returns : ¬ Blocks 6 (d .key)) :
    Documented d ↔ ¬ Blocks 7 (d .keyBak) ∧
      ∀ n digits, d .keyBak = some (.node n) → Admissible 7 n digits → n.mode.testBit 7 = false := by
  have second (k : Key) := loadKeyFrom_iff 7 (by decide) (d .keyBak) k
  have passed : loadKeyFrom (d .key) 0o077 = .failed :=
    (loadKeyFrom_failed_iff 6 (by decide) (d .key)).mpr ⟨refused,returns⟩
  have next : loadKey d = loadKeyFrom (d .keyBak) (2 ^ 7 - 1) := by
    rw [loadKey,passed]
    rfl
  have decodes_iff (k : Key) : FirstDecodes 8 (d .key) (d .keyBak) k ↔
      ∃ digits, AdmissibleAt 8 (d .keyBak) digits ∧ Decodes digits k := by
    refine ⟨fun decodes => ?_,fun decodes => .inr ⟨refused,decodes⟩⟩
    rcases decodes with ⟨digits,admissible,_⟩ | ⟨_,decodes⟩
    · exact absurd admissible (refused digits)
    · exact decodes
  constructor
  · refine fun documented => ⟨fun blocks => ?_,fun n digits here admissible => ?_⟩
    · exact documented_returns documented (next.trans ((loadKeyFrom_never_iff (by decide) _).mpr blocks))
    · obtain ⟨k,decodes⟩ := decodes_exists admissible.size admissible.hex
      have loaded := next.trans ((second k).mpr ⟨digits,⟨n,here,admissible⟩,decodes⟩)
      obtain ⟨_,⟨m,there,strict⟩,_⟩ := (decodes_iff k).mp ((documented.some k).mp loaded)
      cases here.symm.trans there
      exact strict.denied 7 (by decide)
  · rintro ⟨returns',readOnly⟩
    have strict (digits : Bytes) : AdmissibleAt 7 (d .keyBak) digits ↔ AdmissibleAt 8 (d .keyBak) digits := by
      constructor
      · rintro ⟨n,here,admissible⟩
        exact ⟨n,here,admissible.of_ownerWrite (readOnly n digits here admissible)⟩
      · rintro ⟨n,here,admissible⟩
        exact ⟨n,here,admissible.weaken⟩
    simp only [strict] at second
    refine ⟨fun k => ?_,fun none_ => ?_⟩
    · rw [next,decodes_iff]
      exact second k
    · rw [next]
      refine (loadKeyFrom_failed_iff 7 (by decide) (d .keyBak)).mpr ⟨?_,returns'⟩
      rintro digits ⟨n,here,admissible⟩
      obtain ⟨k,decodes⟩ := decodes_exists admissible.size admissible.hex
      exact none_ k ((decodes_iff k).mpr ⟨digits,(strict digits).mp ⟨n,here,admissible⟩,decodes⟩)

end

/-- No candidate that comes to its turn blocks, or is a backup that its owner may write. -/
def Orderly (d : HostFiles) : Prop :=
  (∃ digits, AdmissibleAt 6 (d .key) digits) ∨
    ¬ Blocks 6 (d .key) ∧ ¬ Blocks 7 (d .keyBak) ∧
      ∀ n digits, d .keyBak = some (.node n) → Admissible 7 n digits → n.mode.testBit 7 = false

theorem documented_iff (d : HostFiles) : Documented d ↔ Orderly d := by
  by_cases admissible : ∃ digits, AdmissibleAt 6 (d .key) digits
  · exact iff_of_true (documented_first admissible.choose_spec) (.inl admissible)
  · have refused := not_exists.mp admissible
    rw [Orderly,or_iff_right admissible]
    by_cases returns : Blocks 6 (d .key)
    · refine iff_of_false (fun documented => documented_returns documented ?_) fun both => both.1 returns
      have stuck : loadKeyFrom (d .key) 0o077 = .never := (loadKeyFrom_never_iff (by decide) _).mpr returns
      rw [loadKey,stuck]
    · rw [documented_backup_iff refused returns,and_iff_right returns]

/-! ### Saving -/

/-- What `save_key` did: `f` is the file written, `source` and `g` are those copied from and to. -/
structure Saving (d saved : HostFiles) (key : Key) (renamed : HostFiles) (f source g : Path) (n : Disk.Inode)
    (content : Bytes) : Prop where
  opened : d.opening .keyTmp = .done f
  written : (d.written f 0o600 (keyFileText key)).body.isFile = true
  moved : renamed = (d.place f (d.written f 0o600 (keyFileText key))).rename .keyTmp .key
  reads : renamed.lead .key = some source
  found : renamed.nodeAt source = some n
  writes : renamed.opening .keyBak = .done g
  copied : (renamed.place g (backup renamed g n.mode [])).readAt source = .done content
  result : saved = renamed.place g { (backup renamed g n.mode []).fill content with mode := 0o400 }

theorem saveKey_saving {d saved : HostFiles} {key : Key} (saves : saveKey .done .done key d = (saved,.ok ())) :
    ∃ renamed f source g n content, Saving d saved key renamed f source g n content := by
  obtain ⟨renamed,_,writes,copies⟩ := bind_ok saves
  obtain ⟨copied,_,copies,changes⟩ := bind_ok copies
  obtain ⟨f,opened,written,moved⟩ := replaceFile_writes writes
  obtain ⟨source,n,g,content,reads,found,opened',again,rfl⟩ := copyFile_copies copies
  have free := Disk.free_of_opening opened'
  refine ⟨renamed,f,source,g,n,content,opened,written,moved,reads,found,opened',again,?_⟩
  have changed : saved = ((renamed.place g ((backup renamed g n.mode []).fill content)).chmod .keyBak 0o400) :=
    (Prod.mk.inj changes).1.symm
  rw [changed,Disk.chmod,Disk.lead_place _ free,Disk.lead_of_opening opened']
  exact Disk.edit_place ..

namespace Saving

variable {d saved : HostFiles} {key : Key} {renamed : HostFiles} {f source g : Path} {n : Disk.Inode} {content : Bytes}

/-- The name `key` is the file written, or a link that still leads to it. -/
theorem named (saving : Saving d saved key renamed f source g n content) :
    n.body = .file (some (keyFileText key)) ∧
      ((f = .keyTmp ∧ source = .key ∧ renamed .key = some (.node n)) ∨
        (source = f ∧ ∃ q, renamed .key = some (.link q))) := by
  have body := written_body 0o600 (keyFileText key) ((isFile_written ..).mp saving.written)
  have opened := Disk.lead_of_opening saving.opened
  have free := Disk.lead_end opened
  have moved := saving.moved
  have targets := Disk.target_place (d.written f 0o600 (keyFileText key)) free
  have placed := Disk.place_self d f (d.written f 0o600 (keyFileText key))
  generalize d.written f 0o600 (keyFileText key) = m at body moved targets placed
  have here : renamed .key = d.place f m .keyTmp := by rw [moved,Disk.rename_new _ (by decide)]
  cases link : d.target .keyTmp with
  | none =>
    obtain rfl : Path.keyTmp = f := Option.some.inj ((Disk.lead_self link).symm.trans opened)
    rw [placed] at here
    obtain rfl : Path.key = source :=
      Option.some.inj ((Disk.lead_self (Disk.target_node here)).symm.trans saving.reads)
    obtain rfl : m = n := Option.some.inj ((Disk.nodeAt_of_entry here).symm.trans saving.found)
    exact ⟨body,.inl ⟨rfl,rfl,here⟩⟩
  | some q =>
    have tmpLink : (d.place f m).target .keyTmp = some q := by rw [targets,link]
    rw [Disk.target_link tmpLink] at here
    have notGone : source ≠ .keyTmp := by
      rintro rfl
      have found := Disk.nodeAt_entry saving.found
      rw [moved,Disk.rename_old] at found
      cases found
    -- the chain goes on from the link as it did under the old name
    have reads := saving.reads
    rw [Disk.lead,moved,Disk.target_rename] at reads
    have same := SymLinks.follow_unrenamed tmpLink reads notGone
    rw [Disk.lead,← targets] at opened
    obtain rfl : source = f := Option.some.inj (same.symm.trans opened)
    have notKey : source ≠ .key := by
      rintro rfl
      have found := Disk.nodeAt_entry saving.found
      rw [here] at found
      cases found
    have found := Disk.nodeAt_entry saving.found
    rw [moved,Disk.rename_other _ notGone notKey,placed] at found
    cases found
    exact ⟨body,.inr ⟨rfl,q,here⟩⟩

theorem source_backup (saving : Saving d saved key renamed f source g n content) :
    source = .keyBak ↔ f = .keyBak := by
  obtain ⟨_,⟨rfl,rfl,_⟩ | ⟨rfl,_⟩⟩ := saving.named
  · exact iff_of_false (by decide) (by decide)
  · exact Iff.rfl

/-- The backup's entry is as it was until it is copied to. -/
theorem backup_kept (saving : Saving d saved key renamed f source g n content) (apart : f ≠ .keyBak) :
    renamed .keyBak = d .keyBak := by
  rw [saving.moved,Disk.rename_other _ (by decide) (by decide),Disk.place_other _ (Ne.symm apart)]

/-- A backup that is no link is what is copied to. -/
theorem target_backup (saving : Saving d saved key renamed f source g n content)
    (plain : renamed.target .keyBak = none) : g = .keyBak :=
  Option.some.inj ((Disk.lead_of_opening saving.writes).symm.trans (Disk.lead_self plain))

/-- The copy is whole unless the truncated target is the source. -/
theorem content_apart (saving : Saving d saved key renamed f source g n content) (apart : source ≠ g) :
    content = keyFileText key := by
  have copied := saving.copied
  rw [Disk.readAt,Disk.nodeAt_place_other _ apart,saving.found] at copied
  dsimp only at copied
  rw [saving.named.1] at copied
  exact (SysCall.done.inj copied).symm

end Saving

/-- `key.bak` is missing, a regular file of root's, or something else of root's that gives this very key. -/
def OwnBackup (d : HostFiles) (key : Key) : Prop :=
  ∀ entry, d .keyBak = some entry → ∃ n, entry = .node n ∧ n.uid = 0 ∧
    (n.body.isFile = true ∨ ∃ s, n.body.read = .done s ∧ isUtf8 s = true ∧ parseKeyHex (trim s) = some key)

namespace Saving

variable {d saved : HostFiles} {key : Key} {renamed : HostFiles} {f source g : Path} {n : Disk.Inode} {content : Bytes}

theorem backup_loads (saving : Saving d saved key renamed f source g n content) (own : OwnBackup d key)
    (apart : f ≠ .keyBak) : g = .keyBak ∧ loadKeyFrom (saved .keyBak) 0o177 = .done key := by
  have kept := saving.backup_kept apart
  have plain : renamed.target .keyBak = none := by
    cases old : d .keyBak with
    | none => exact Disk.target_missing (kept.trans old)
    | some entry =>
      obtain ⟨m,rfl,_⟩ := own entry old
      exact Disk.target_node (kept.trans old)
  obtain rfl := saving.target_backup plain
  have other : source ≠ .keyBak := mt saving.source_backup.mp apart
  obtain rfl := saving.content_apart other
  refine ⟨rfl,?_⟩
  rw [saving.result,Disk.place_self]
  by_cases regular : ∀ m, renamed.nodeAt .keyBak = some m → m.body.isFile = true
  · rw [backup_file regular]
    refine loadKeyFrom_written ⟨?_,(by decide : 0o400 &&& 0o777 &&& 0o177 = 0)⟩ rfl
    dsimp only [owner]
    cases here : renamed.nodeAt .keyBak with
    | none => rfl
    | some m =>
      obtain ⟨m',same,root,_⟩ := own _ (kept.symm.trans (Disk.nodeAt_entry here))
      cases same
      exact root
  · obtain ⟨m,irregular⟩ := not_forall.mp regular
    obtain ⟨here,special⟩ := Classical.not_imp.mp irregular
    obtain ⟨m',same,root,gives⟩ := own _ (kept.symm.trans (Disk.nodeAt_entry here))
    cases same
    obtain ⟨s,read,valid,parsed⟩ := gives.resolve_left special
    rw [backup_special here (Bool.eq_false_iff.mpr special)]
    exact loadKeyFrom_done_iff.mpr ⟨⟨root,(by decide : 0o400 &&& 0o777 &&& 0o177 = 0)⟩,s,read,valid,parsed⟩

/-- Both the saved key and its backup are this key. -/
theorem serves (saving : Saving d saved key renamed f source g n content) (own : OwnBackup d key) (apart : f ≠ .keyBak) :
    loadKey saved = .done key ∧ ∀ file, loadKeyFrom file 0o077 = .failed →
      loadKey (Function.update saved .key file) = .done key := by
  obtain ⟨rfl,backup⟩ := saving.backup_loads own apart
  have later (file : Option (Disk.Entry Path)) (refused : loadKeyFrom file 0o077 = .failed) :
      loadKey (Function.update saved .key file) = .done key := by
    rw [loadKey,Function.update_self,refused,Function.update_of_ne (by decide)]
    exact backup
  refine ⟨?_,later⟩
  have same : saved .key = renamed .key := by rw [saving.result,Disk.place_other _ (by decide)]
  have passed (refused : loadKeyFrom (saved .key) 0o077 = .failed) : loadKey saved = .done key := by
    rw [loadKey,refused]
    exact backup
  obtain ⟨text,⟨_,_,here⟩ | ⟨_,q,link⟩⟩ := saving.named
  · by_cases guarded : Guarded 0o077 n
    · rw [loadKey,same,here,loadKeyFrom_written guarded text]
    · exact passed (by rw [same,here,loadKeyFrom_refused guarded])
  · refine passed ?_
    rw [same,link]
    rfl

/-- Only then is the key loaded from the backup. -/
theorem of_backup_loads (saving : Saving d saved key renamed f source g n content)
    (loads : loadKeyFrom (saved .keyBak) 0o177 = .done key) : OwnBackup d key ∧ f ≠ .keyBak := by
  have noLink : ∀ q, renamed .keyBak ≠ some (.link q) := by
    intro q link
    have other : Path.keyBak ≠ g := by
      rintro rfl
      have free := Disk.free_of_opening saving.writes
      rw [Disk.target,link] at free
      cases free
    rw [saving.result,Disk.place_other _ other,link] at loads
    cases loads
  have plain : renamed.target .keyBak = none := by
    rw [Disk.target]
    split
    · exact absurd ‹_› (noLink _)
    · rfl
  obtain rfl := saving.target_backup plain
  rw [saving.result,Disk.place_self] at loads
  have apart : f ≠ .keyBak := by
    intro same
    -- the source is truncated before it is read
    obtain rfl := saving.source_backup.mpr same
    have regular : ∀ m, renamed.nodeAt .keyBak = some m → m.body.isFile = true := by
      intro m here
      obtain rfl := Option.some.inj (saving.found.symm.trans here)
      rw [saving.named.1]
      rfl
    have copied := saving.copied
    rw [Disk.readAt,Disk.nodeAt_place] at copied
    dsimp only at copied
    rw [backup_body,written_body n.mode [] regular] at copied
    obtain rfl := SysCall.done.inj copied
    rw [backup_file regular] at loads
    have nothing := loadKeyFrom_cut key 0 (loadKeyFrom_done_iff.mp loads).1 rfl
    rw [loads] at nothing
    cases nothing
  refine ⟨fun entry old => ?_,apart⟩
  rw [← saving.backup_kept apart] at old
  cases entry with
  | link q => exact absurd old (noLink q)
  | node m =>
    have here := Disk.nodeAt_of_entry old
    refine ⟨m,rfl,?_⟩
    cases file : m.body.isFile with
    | true =>
      have regular : ∀ m', renamed.nodeAt .keyBak = some m' → m'.body.isFile = true := by
        intro m' same
        obtain rfl := Option.some.inj (here.symm.trans same)
        exact file
      rw [backup_file regular] at loads
      have root : owner renamed .keyBak = 0 := (loadKeyFrom_done_iff.mp loads).1.1
      rw [owner,here] at root
      exact ⟨root,.inl rfl⟩
    | false =>
      rw [backup_special here file] at loads
      obtain ⟨guarded,gives⟩ := loadKeyFrom_done_iff.mp loads
      exact ⟨guarded.1,.inr gives⟩

end Saving

/-- `load_key` follows the documented order if and only if no candidate blocks when its turn comes and an owner-writable
`key.bak` does not come to its turn. A saved key is found in both files, the second time with anything inadmissible in
place of `key`, if and only if the backup is written as root's own file and that thing does not block. -/
theorem key_files_admitted (d : HostFiles) : (Documented d ↔ Orderly d) ∧
    ∀ saved k, saveKey .done .done k d = (saved,.ok ()) → ∀ file, (∀ digits, ¬ AdmissibleAt 6 file digits) →
      ((loadKey saved = .done k ∧ loadKey (Function.update saved .key file) = .done k) ↔
        OwnBackup d k ∧ d.lead .keyTmp ≠ some .keyBak ∧ ¬ Blocks 6 file) := by
  refine ⟨documented_iff d,fun saved k saves file refused => ?_⟩
  obtain ⟨renamed,f,source,g,n,content,saving⟩ := saveKey_saving saves
  have failed := loadKeyFrom_failed_iff 6 (by decide) file
  rw [Disk.lead_of_opening saving.opened,Ne,Option.some.injEq]
  constructor
  · rintro ⟨_,later⟩
    have returns : ¬ Blocks 6 file := by
      intro blocks
      have stuck : loadKeyFrom file 0o077 = .never := (loadKeyFrom_never_iff (by decide) file).mpr blocks
      rw [loadKey,Function.update_self,stuck] at later
      cases later
    have passed : loadKeyFrom file 0o077 = .failed := failed.mpr ⟨refused,returns⟩
    rw [loadKey,Function.update_self,passed,Function.update_of_ne (by decide)] at later
    obtain ⟨own,apart⟩ := saving.of_backup_loads later
    exact ⟨own,apart,returns⟩
  · rintro ⟨own,apart,returns⟩
    obtain ⟨now,later⟩ := saving.serves own apart
    exact ⟨now,later file (failed.mpr ⟨refused,returns⟩)⟩

theorem key_files_admitted_fresh : ∃ saved, saveKey .done .done katKey (fun _ => none) = (saved,.ok ()) ∧
    loadKey saved = .done katKey ∧ loadKey (Function.update saved .key none) = .done katKey := by
  let saved : HostFiles := (saveKey .done .done katKey fun _ => none).1
  have saves : saveKey .done .done katKey (fun _ => none) = (saved,.ok ()) := Prod.ext rfl rfl
  have refused (digits : Bytes) : ¬ AdmissibleAt 6 none digits := by rintro ⟨_,never,_⟩; cases never
  have returns : ¬ Blocks 6 none := by rintro ⟨_,never,_⟩; cases never
  have own : OwnBackup (fun _ => none) katKey := fun _ never => by cases never
  exact ⟨saved,saves,((key_files_admitted fun _ => none).2 saved katKey saves none refused).mpr ⟨own,by decide,returns⟩⟩

/-- No key file, and a backup of mode 0600. -/
def writableBackup : HostFiles
  | .keyBak => some (.node ⟨0,0o600,.file (some (keyFileText katKey))⟩)
  | _ => none

/-- A FIFO of root's that nobody writes to, and a good backup. -/
def fifoKey : HostFiles
  | .key => some (.node ⟨0,0o600,.fifo none false⟩)
  | .keyBak => some (.node ⟨0,0o400,.file (some (keyFileText katKey))⟩)
  | _ => none

/-- A backup of mode 0600 is no documented candidate, and is loaded; and where `key` is a FIFO the good backup is never
reached. -/
theorem writable_backup_loaded :
    (loadKey writableBackup = .done katKey ∧ ¬ FirstDecodes 8 (writableBackup .key) (writableBackup .keyBak) katKey) ∧
      FirstDecodes 8 (fifoKey .key) (fifoKey .keyBak) katKey ∧ loadKey fifoKey = .never := by
  refine ⟨⟨by decide +kernel,?_⟩,.inr ⟨?_,keyHex katKey,⟨_,rfl,rfl,?_,?_,?_,?_⟩,?_⟩,rfl⟩
  · rintro (⟨_,⟨_,never,_⟩,_⟩ | ⟨_,digits,⟨n,here,admissible⟩,_⟩)
    · cases never
    · cases here
      exact absurd (admissible.denied 7 (by decide)) (by decide)
  · rintro digits ⟨n,here,admissible⟩
    cases here
    obtain ⟨_,never,_⟩ := admissible.text
    cases never
  · decide
  · exact ⟨keyFileText katKey,rfl,isUtf8_ascii _ (keyFileText_ascii katKey),trim_keyFileText katKey⟩
  · decide +kernel
  · decide +kernel
  · exact (Hex.decode_some_iff _ _).mp (Hex.decode_encode katKey.bytes)

end R503.Host
