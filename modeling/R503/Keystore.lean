import R503.Decimal
import R503.Disk
import R503.Fallible
import R503.HostCounter
import R503.SerialLines

/-! The host's key files and their load order, and every write to them and to `state.json` (keystore.rs, state.rs),
on one disk. A system call succeeds where the disk lets it and a flag does not fail it. -/
namespace R503.Host

open Text Fallible

/-- The files in `/var/lib/r503d`, the opt-in marker, and whatever else a link may lead to. -/
inductive Path where
  | key
  | keyBak
  | keyTpm
  | keyTmp
  | keyTpmTmp
  | state
  | stateTmp
  | allowPair
  | other (n : Nat)
  deriving DecidableEq

abbrev HostFiles : Type := Disk Path

/-- The TPM as the daemon uses it. `sealKey attempt key pcrs` may fail or give any blob, under
no policy if `pcrs` is none; what it sealed it unseals. -/
structure Tpm where
  devicePresent : Bool
  sealKey : Nat → Key → Option (List UInt8) → Option Bytes
  unsealKey : Bytes → Option Key
  unsealsSealed : ∀ attempt key pcrs blob, sealKey attempt key pcrs = some blob → unsealKey blob = some key

def Tpm.echo : Tpm where
  devicePresent := true
  sealKey _ key _ := some key.bytes
  unsealKey blob := if size : blob.length = 16 then some ⟨blob,size⟩ else none
  unsealsSealed attempt key pcrs blob made := by
    obtain rfl := Option.some.inj made
    simp [key.size]

inductive KeySource where
  | plaintext
  | tpm
  deriving DecidableEq

inductive KeyError where
  | readingBlob
  | unsealing
  deriving DecidableEq

/-! ### Loading -/

def keyHex (key : Key) : Bytes := Hex.encode key.bytes

def parseKeyHex (s : Bytes) : Option Key :=
  if s.length ≠ 32 then none
  else match Hex.decode s with
    | none => none
    | some bytes => if size : bytes.length = 16 then some ⟨bytes,size⟩ else none

/-- Whether `read_to_string` accepts these bytes; `skip` bytes of a character are still to pass. -/
def utf8Loop : Bytes → (skip : Nat) → Bool
  | [],_ => true
  | _ :: s,skip + 1 => utf8Loop s skip
  | c :: s,0 =>
    match utf8Head (c :: s) with
    | (true,n) => utf8Loop s (n - 1)
    | (false,_) => false

def isUtf8 (s : Bytes) : Bool := utf8Loop s 0

/-- `None` is `failed`. -/
def readKeyFileGuarded (entry : Option (Disk.Entry Path)) (allowMask : Nat) : SysCall Bytes :=
  match entry with
  | none => .failed
  | some (.link _) => .failed
  | some (.node n) =>
    if n.uid ≠ 0 then .failed
    else if n.mode &&& 0o777 &&& allowMask ≠ 0 then .failed
    else match n.body.read with
      | .done s => if isUtf8 s then .done s else .failed
      | .failed => .failed
      | .never => .never

def loadKeyFrom (entry : Option (Disk.Entry Path)) (allowMask : Nat) : SysCall Key :=
  match readKeyFileGuarded entry allowMask with
  | .done hex =>
    match parseKeyHex (trim hex) with
    | some key => .done key
    | none => .failed
  | .failed => .failed
  | .never => .never

def loadKey (files : HostFiles) : SysCall Key :=
  match loadKeyFrom (files .key) 0o077 with
  | .done key => .done key
  | .failed => loadKeyFrom (files .keyBak) 0o177
  | .never => .never

/-- A sealed blob that is there is the only source. -/
def loadKeyWithSource (tpm : Tpm) (files : HostFiles) : Except (Halt KeyError) (Option (Key × KeySource)) :=
  match files.found .keyTpm with
  | some n =>
    match n.body.read with
    | .failed => .error (.fails .readingBlob)
    | .never => .error .never
    | .done blob =>
      match tpm.unsealKey blob with
      | none => .error (.fails .unsealing)
      | some key => .ok (some (key,.tpm))
  | none =>
    match loadKey files with
    | .done key => .ok (some (key,.plaintext))
    | .failed => .ok none
    | .never => .error .never

/-- `state::load`; `fromSlice` is the JSON parser's, and `readable` is whether stat and read succeed. -/
def stateLoadFrom (fromSlice : Bytes → Option UInt64) (readable : Bool) (files : HostFiles) :
    Except (Halt StateError) (Option UInt64) :=
  match files.found .state with
  | none => .ok none
  | some n =>
    match n.body.read with
    | .done s => (stateLoad readable (some ⟨n.mode,fromSlice s⟩)).mapError .fails
    | .failed => (stateLoad false (some ⟨n.mode,none⟩)).mapError .fails
    | .never =>
      -- an insecure mode is found before anything is read
      if readable ∧ n.mode &&& 0o777 = 0o600 then .error .never
      else (stateLoad readable (some ⟨n.mode,none⟩)).mapError .fails

/-! ### Writing -/

/-- Which steps of a tmp-file, fsync and rename write the system does not fail. A failing `write_all` has
written `upTo` bytes. -/
structure WriteIo where
  createDir : Bool
  create : Bool
  write : Bool
  upTo : Nat
  sync : Bool
  rename : Bool

def WriteIo.done : WriteIo := ⟨true,true,true,0,true,true⟩

inductive FileError where
  | creatingDir
  | creating
  | writing
  | syncing
  | renaming
  | copying
  | sealing
  | removing
  deriving DecidableEq

/-- The first step of such a write that the system fails. -/
def atomicWrite (io : WriteIo) : Except FileError Unit :=
  if ¬ io.createDir then .error .creatingDir
  else if ¬ io.create then .error .creating
  else if ¬ io.write then .error .writing
  else if ¬ io.sync then .error .syncing
  else if ¬ io.rename then .error .renaming
  else .ok ()

abbrev FileOp : Type := Fallible HostFiles (Halt FileError) Unit

/-- `.ok()`: an error is dropped, but not a call that does not return. -/
def attempt (x : FileOp) : FileOp := fun files =>
  match x files with
  | (files,.error .never) => (files,.error .never)
  | (files,_) => (files,.ok ())

def setPermissions (ok : Bool) (p : Path) (mode : Nat) : FileOp := fun files =>
  (if ok then files.chmod p mode else files,.ok ())

/-- The write shared by `save_key`, `persist_sealed_blob` and `state::save`. -/
def replaceFile (io : WriteIo) (tmp target : Path) (content : Bytes) : FileOp := fun files =>
  if ¬ io.createDir then (files,.error (.fails .creatingDir))
  else if ¬ io.create then (files,.error (.fails .creating))
  else match files.opening tmp with
    | .failed => (files,.error (.fails .creating))
    | .never => (files,.error .never)
    | .done f =>
      let files := files.truncate f 0o600
      if ¬ io.write then (files.fill f (content.take io.upTo),.error (.fails .writing))
      else
        let files := files.fill f content
        -- only regular files can be synced
        if ¬ io.sync ∨ ¬ files.isFile f then (files,.error (.fails .syncing))
        else if ¬ io.rename ∨ files.isDirectory target then (files,.error (.fails .renaming))
        else (files.rename tmp target,.ok ())

structure CopyIo where
  create : Bool
  setMode : Bool
  /-- Where the copying of the content fails. -/
  cut : Option Nat
  chmod : Bool

def CopyIo.done : CopyIo := ⟨true,true,none,true⟩

/-- `fs::copy` from a regular file. The target is truncated, and has the source's mode, before the source is read. -/
def copyFile (io : CopyIo) (original copy : Path) : FileOp := fun files =>
  match (files.lead original).bind fun source => (files.nodeAt source).map fun n => (source,n) with
  | none => (files,.error (.fails .copying))
  | some (source,n) =>
    match n.body with
    | .fifo none _ => (files,.error .never)
    | .directory | .socket | .fifo (some _) _ | .device _ => (files,.error (.fails .copying))
    | .file _ =>
      if ¬ io.create then (files,.error (.fails .copying))
      else match files.opening copy with
        | .failed => (files,.error (.fails .copying))
        | .never => (files,.error .never)
        | .done f =>
          let files := files.truncate f n.mode
          if files.isFile f ∧ ¬ io.setMode then (files,.error (.fails .copying))
          else
            let files := if files.isFile f then files.setMode f n.mode else files
            match files.readAt source,io.cut with
            | .done content,some k => (files.fill f (content.take k),.error (.fails .copying))
            | .done content,none => (files.fill f content,.ok ())
            | .failed,_ | .never,_ => (files,.error (.fails .copying))

def keyFileText (key : Key) : Bytes := keyHex key ++ [lineFeed]

/-- The second half of `save_key`. -/
def copyBackup (copy : CopyIo) : FileOp := do
  copyFile copy .key .keyBak
  setPermissions copy.chmod .keyBak 0o400

def saveKey (io : WriteIo) (copy : CopyIo) (key : Key) : FileOp := do
  replaceFile io .keyTmp .key (keyFileText key)
  copyBackup copy

structure RemoveIo where
  chmod : Bool
  /-- The bytes `shred_file` overwrites, if it can open the file. -/
  shred : Option Nat
  remove : Bool

def RemoveIo.done : RemoveIo := ⟨true,some 33,true⟩

def zap : Bytes := List.replicate 33 0xFF

def shredFile (shred : Option Nat) (p : Path) : FileOp := fun files =>
  match shred,(files.lead p).bind fun f => (files.nodeAt f).map fun n => (f,n) with
  | some count,some (f,n) =>
    match n.body.writing with
    | .done () => (files.edit f fun n => { n with body := n.body.overlay (zap.take count) },.ok ())
    | .failed => (files,.ok ())
    | .never => (files,.error .never)
  | _,_ => (files,.ok ())

/-- `remove_file`, for which a missing file is no error. -/
def removeFile (ok : Bool) (p : Path) : FileOp := fun files =>
  if files p = none then (files,.ok ())
  else if ok ∧ ¬ files.isDirectory p then (files.remove p,.ok ())
  else (files,.error (.fails .removing))

/-- One of the two rounds of `delete_key`. -/
def removeKeyFile (io : RemoveIo) (p : Path) : FileOp := do
  setPermissions io.chmod p 0o600
  shredFile io.shred p
  removeFile io.remove p

structure DeleteIo where
  key : RemoveIo
  keyBak : RemoveIo
  keyTpm : Bool

def DeleteIo.done : DeleteIo := ⟨.done,.done,true⟩

def deleteKey (io : DeleteIo) : FileOp := do
  removeKeyFile io.key .key
  removeKeyFile io.keyBak .keyBak

def deleteSealedKey (io : DeleteIo) : FileOp := removeFile io.keyTpm .keyTpm

def deleteAllKeys (io : DeleteIo) : FileOp := do
  deleteKey io
  deleteSealedKey io

def persistSealedBlob (io : WriteIo) (blob : Bytes) : FileOp := replaceFile io .keyTpmTmp .keyTpm blob

def saveKeySealedWithPcrs (tpm : Tpm) (attemptNo : Nat) (io : WriteIo) (delete : DeleteIo) (key : Key)
    (pcrs : List UInt8) : FileOp := do
  let blob ← fromExcept (match tpm.sealKey attemptNo key (some pcrs) with
    | some blob => .ok blob
    | none => .error (.fails .sealing))
  persistSealedBlob io blob
  attempt (deleteKey delete)

/-- The pretty-printed JSON of a `State`, and a newline. -/
def stateText (n : UInt64) : Bytes :=
  ascii "\x7b\n  \"next_cmd_counter\": " ++ Decimal.render n.toNat ++ ascii "\n\x7d\n"

def stateSave (io : WriteIo) (n : UInt64) : FileOp := replaceFile io .stateTmp .state (stateText n)

def stateDelete (removed : Bool) : FileOp := removeFile removed .state

def allowPairPresent (files : HostFiles) : Bool := (files.found .allowPair).isSome

def removeAllowPair (removed : Bool) : FileOp := removeFile removed .allowPair

/-! ### What is loaded -/

@[simp] theorem parseKeyHex_keyHex (key : Key) : parseKeyHex (keyHex key) = some key := by
  have digits : (Hex.encode key.bytes).length = 32 := by rw [Hex.encode_length,key.size]
  simp [parseKeyHex,keyHex,digits,key.size]

theorem keyHex_printable (key : Key) : ∀ c ∈ keyHex key, Text.Printable c := by
  have digits (b : UInt8) : Text.Printable (Hex.digit (b >>> (4 : UInt8))) ∧ Text.Printable (Hex.digit (b &&& 15)) := by
    revert b; apply Hex.forall_byte; decide +kernel
  intro c member
  obtain ⟨b,_,pair⟩ := List.mem_flatMap.mp member
  rcases List.mem_pair.mp pair with rfl | rfl
  · exact (digits b).1
  · exact (digits b).2

theorem trim_shown {word : Bytes} (some : word ≠ []) (printable : ∀ c ∈ word, Text.Printable c) : trim word = word := by
  simpa using trim_word word [] some printable rfl

theorem trim_keyFileText (key : Key) : trim (keyFileText key) = keyHex key := by
  have some : keyHex key ≠ [] := by
    intro empty
    have digits := Hex.encode_length key.bytes
    rw [keyHex] at empty
    rw [empty,key.size] at digits
    cases digits
  exact trim_word (keyHex key) [lineFeed] some (keyHex_printable key) rfl

theorem isUtf8_ascii (s : Bytes) (plain : ∀ c ∈ s, c < 128) : isUtf8 s = true := by
  induction s with
  | nil => rfl
  | cons c s ih =>
    obtain ⟨here,later⟩ := List.forall_mem_cons.mp plain
    simp only [isUtf8,utf8Loop,utf8Head_ascii c s here]
    exact ih later

theorem keyFileText_ascii (key : Key) : ∀ c ∈ keyFileText key, c < 128 := by
  refine List.forall_mem_append.mpr ⟨fun c member => ?_,?_⟩
  · exact (Hex.encode_printable key.bytes c member).2
  · decide +kernel

def Guarded (allowMask : Nat) (n : Disk.Inode) : Prop := n.uid = 0 ∧ n.mode &&& 0o777 &&& allowMask = 0

instance (allowMask : Nat) (n : Disk.Inode) : Decidable (Guarded allowMask n) := inferInstanceAs (Decidable (_ ∧ _))

section
variable {allowMask : Nat} {n : Disk.Inode} {key : Key} {tpm : Tpm} {files : HostFiles}

theorem readKeyFileGuarded_node (guarded : Guarded allowMask n) : readKeyFileGuarded (some (.node n)) allowMask =
    match n.body.read with
    | .done s => if isUtf8 s then .done s else .failed
    | .failed => .failed
    | .never => .never := by
  rw [readKeyFileGuarded,if_neg (not_not.mpr guarded.1),if_neg (not_not.mpr guarded.2)]

theorem loadKeyFrom_refused (refused : ¬ Guarded allowMask n) : loadKeyFrom (some (.node n)) allowMask = .failed := by
  have closed : readKeyFileGuarded (some (.node n)) allowMask = .failed := by
    rw [readKeyFileGuarded]
    split
    · rfl
    next root =>
      rw [if_pos fun clear => refused ⟨not_not.mp root,clear⟩]
  rw [loadKeyFrom,closed]

/-- What is loaded has passed the guard, was read to its end, and is a key. -/
theorem loadKeyFrom_done_iff : loadKeyFrom (some (.node n)) allowMask = .done key ↔
    Guarded allowMask n ∧ ∃ s, n.body.read = .done s ∧ isUtf8 s = true ∧ parseKeyHex (trim s) = some key := by
  by_cases guarded : Guarded allowMask n
  · rw [loadKeyFrom,readKeyFileGuarded_node guarded,and_iff_right guarded]
    cases n.body.read with
    | failed | never => simp
    | done s =>
      dsimp only
      cases valid : isUtf8 s with
      | false => simp [valid]
      | true =>
        rw [if_pos rfl]
        dsimp only
        cases parsed : parseKeyHex (trim s) <;> simp [valid,parsed]
  · rw [loadKeyFrom_refused guarded]
    exact iff_of_false (by simp) fun both => guarded both.1

/-- A whole key file that passes the guard. -/
theorem loadKeyFrom_written (guarded : Guarded allowMask n) (text : n.body = .file (some (keyFileText key))) :
    loadKeyFrom (some (.node n)) allowMask = .done key := by
  have read : readKeyFileGuarded (some (.node n)) allowMask = .done (keyFileText key) := by
    rw [readKeyFileGuarded_node guarded,text]
    exact if_pos (isUtf8_ascii _ (keyFileText_ascii key))
  rw [loadKeyFrom,read]
  dsimp only
  rw [trim_keyFileText,parseKeyHex_keyHex]

/-- Its first bytes are the key if all digits are among them. -/
theorem loadKeyFrom_cut (key : Key) (k : Nat) (guarded : Guarded allowMask n)
    (text : n.body = .file (some ((keyFileText key).take k))) :
    loadKeyFrom (some (.node n)) allowMask = if 32 ≤ k then .done key else .failed := by
  have digits : (keyHex key).length = 32 := by rw [keyHex,Hex.encode_length,key.size]
  have plain : ∀ c ∈ (keyFileText key).take k, c < 128 := fun c member =>
    keyFileText_ascii key c (List.mem_of_mem_take member)
  have read : readKeyFileGuarded (some (.node n)) allowMask = .done ((keyFileText key).take k) := by
    rw [readKeyFileGuarded_node guarded,text]
    exact if_pos (isUtf8_ascii _ plain)
  have shown : ∀ c ∈ (keyHex key).take k, Text.Printable c := fun c member =>
    keyHex_printable key c (List.mem_of_mem_take member)
  rw [loadKeyFrom,read]
  dsimp only
  by_cases whole : 32 ≤ k
  · rw [if_pos whole]
    have hex : trim ((keyFileText key).take k) = keyHex key := by
      rcases Nat.eq_or_lt_of_le whole with rfl | more
      · rw [keyFileText,List.take_append_of_le_length (by omega),List.take_of_length_le (by omega)]
        exact trim_shown (by rw [Ne,← List.length_eq_zero_iff]; omega) (keyHex_printable key)
      · rw [List.take_of_length_le (by simp [keyFileText,digits]; omega),trim_keyFileText]
    rw [hex,parseKeyHex_keyHex]
  · rw [if_neg whole]
    have short : (trim ((keyFileText key).take k)).length ≠ 32 := by
      rw [keyFileText,List.take_append_of_le_length (by omega)]
      by_cases none : (keyHex key).take k = []
      · rw [none]
        decide
      · rw [trim_shown none shown,List.length_take]
        omega
    rw [parseKeyHex,if_pos short]

def Loads (tpm : Tpm) (files : HostFiles) (key : Key) : Prop :=
  ∃ source, loadKeyWithSource tpm files = .ok (some (key,source))

theorem loads_sealed {blob : Bytes} (stored : files.found .keyTpm = some n) (content : n.body.read = .done blob)
    (unseals : tpm.unsealKey blob = some key) : Loads tpm files key :=
  ⟨.tpm,by rw [loadKeyWithSource,stored]; simp only [content,unseals]⟩

theorem loads_plaintext_iff (unsealed : files.found .keyTpm = none) :
    Loads tpm files key ↔ loadKey files = .done key := by
  rw [Loads,loadKeyWithSource,unsealed]
  cases loadKey files <;> simp

theorem loads_nothing (noKey : files .key = none) (noBak : files .keyBak = none)
    (noBlob : files.found .keyTpm = none) : loadKeyWithSource tpm files = .ok none := by
  have nothing : loadKey files = .failed := by rw [loadKey,noKey,noBak]; rfl
  rw [loadKeyWithSource,noBlob,nothing]

/-- While `key.tpm` is there nothing else matters. -/
theorem loadKeyWithSource_sealed {a b : HostFiles} (stored : a.found .keyTpm = some n)
    (same : b.found .keyTpm = some n) : loadKeyWithSource tpm a = loadKeyWithSource tpm b := by
  rw [loadKeyWithSource,loadKeyWithSource,stored,same]

theorem loadKeyWithSource_congr {a b : HostFiles} (key : b .key = a .key) (keyBak : b .keyBak = a .keyBak)
    (keyTpm : b.found .keyTpm = a.found .keyTpm) : loadKeyWithSource tpm b = loadKeyWithSource tpm a := by
  rw [loadKeyWithSource,loadKeyWithSource,keyTpm,loadKey,loadKey,key,keyBak]

/-- A key file that was written is the key that is loaded, unless `key.tpm` hides it. -/
theorem loads_written {old : HostFiles} (written : files .key = some (.node n)) (guarded : Guarded 0o077 n)
    (text : n.body = .file (some (keyFileText key))) (same : files.found .keyTpm = old.found .keyTpm) :
    Loads tpm files key ↔ old.found .keyTpm = none ∨ Loads tpm old key := by
  cases blob : old.found .keyTpm with
  | none =>
    refine iff_of_true ((loads_plaintext_iff (same.trans blob)).mpr ?_) (Or.inl rfl)
    rw [loadKey,written,loadKeyFrom_written guarded text]
  | some m =>
    rw [Loads,loadKeyWithSource_sealed (same.trans blob) blob]
    simp [Loads]

end

/-! ### Writes the system does not fail -/

def WriteIo.Fine (io : WriteIo) : Prop :=
  io.createDir ∧ io.create ∧ io.write ∧ io.sync ∧ io.rename

instance (io : WriteIo) : Decidable io.Fine := inferInstanceAs (Decidable (_ ∧ _))

theorem atomicWrite_fine (io : WriteIo) (fine : io.Fine) : atomicWrite io = .ok () := by
  obtain ⟨dir,create,write,sync,rename⟩ := fine
  simp [atomicWrite,dir,create,write,sync,rename]

theorem atomicWrite_fails (io : WriteIo) (fails : ¬ io.Fine) : ∃ e, atomicWrite io = .error e := by
  unfold atomicWrite
  split
  · exact ⟨_,rfl⟩
  split
  · exact ⟨_,rfl⟩
  split
  · exact ⟨_,rfl⟩
  split
  · exact ⟨_,rfl⟩
  split
  · exact ⟨_,rfl⟩
  next dir create write sync rename =>
    exact absurd ⟨not_not.mp dir,not_not.mp create,not_not.mp write,not_not.mp sync,not_not.mp rename⟩ fails

end R503.Host
