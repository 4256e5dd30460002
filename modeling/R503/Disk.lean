import R503.SymLinks
import R503.Text

/-! A directory as the system calls of one process meet it: regular files, symbolic links, and entries of other
types, which may refuse to be opened or keep their opener waiting for ever. Opening and `chmod` follow links,
renaming and unlinking do not. Two names of one file (hard links), and block devices that are written to, are not
covered. -/

/-- What a system call comes to, if it returns. -/
inductive SysCall (α : Type) where
  | done (a : α)
  | failed
  | never
  deriving DecidableEq

/-- Why there is no result: an error, or a call that does not return. -/
inductive Halt (ε : Type) where
  | fails (e : ε)
  | never
  deriving DecidableEq

def Halt.map {ε δ : Type} (f : ε → δ) : Halt ε → Halt δ
  | .fails e => .fails (f e)
  | .never => .never

namespace Disk

open Text

inductive Body where
  /-- `content` is none where the medium fails to give it back. -/
  | file (content : Option Bytes)
  | directory
  | socket
  /-- What a writer at the other end sends, if there is one, and whether a reader is there. -/
  | fifo (sent : Option Bytes) (heard : Bool)
  /-- What reading it to its end comes to. -/
  | device (gives : SysCall Bytes)
  deriving DecidableEq

namespace Body

def read : Body → SysCall Bytes
  | .file (some s) | .fifo (some s) _ => .done s
  | .file none | .directory | .socket => .failed
  | .fifo none _ => .never
  | .device gives => gives

def writing : Body → SysCall Unit
  | .file _ | .fifo _ true | .device _ => .done ()
  | .directory | .socket => .failed
  | .fifo _ false => .never

def isFile : Body → Bool
  | .file _ => true
  | .directory | .socket | .fifo _ _ | .device _ => false

/-- New content; what is no regular file keeps none of it. -/
def fill (content : Bytes) : Body → Body
  | .file _ => .file (some content)
  | body => body

def overlay (start : Bytes) : Body → Body
  | .file content => .file (content.map fun old => start ++ old.drop start.length)
  | body => body

end Body

structure Inode where
  uid : Nat
  mode : Nat
  body : Body
  deriving DecidableEq

def Inode.fill (content : Bytes) (n : Inode) : Inode := { n with body := n.body.fill content }

inductive Entry (π : Type) where
  | link (target : π)
  | node (n : Inode)
  deriving DecidableEq

end Disk

abbrev Disk (π : Type) : Type := π → Option (Disk.Entry π)

namespace Disk

open Text

variable {π : Type}

section
variable (d : Disk π) (p f : π)

def target : Option π :=
  match d p with
  | some (.link q) => some q
  | _ => none

def nodeAt : Option Inode :=
  match d p with
  | some (.node n) => some n
  | _ => none

def maxLinks : Nat := 40

/-- The path an open reaches; there may be nothing there. -/
def lead : Option π := SymLinks.follow d.target (maxLinks + 1) p

def chain : List π := SymLinks.chain d.target (maxLinks + 1) p

/-- `stat`. -/
def found : Option Inode := (d.lead p).bind d.nodeAt

/-- Where an open for writing gets, with `O_CREAT`. -/
def opening : SysCall π :=
  match d.lead p with
  | none => .failed
  | some f =>
    match d.nodeAt f with
    | none => .done f
    | some n =>
      match n.body.writing with
      | .done () => .done f
      | .failed => .failed
      | .never => .never

/-- What is at `f` once it has been opened with `O_CREAT`, `O_TRUNC` and this mode, and written. -/
def written (mode : Nat) (content : Bytes) : Inode :=
  match d.nodeAt f with
  | none => ⟨0,mode,.file (some content)⟩
  | some n => n.fill content

def readAt : SysCall Bytes :=
  match d.nodeAt f with
  | none => .failed
  | some n => n.body.read

def isFile : Bool :=
  match d.nodeAt p with
  | some n => n.body.isFile
  | none => false

/-- `rename` and `unlink` fail on a directory. -/
def isDirectory : Bool :=
  match d.nodeAt p with
  | some ⟨_,_,.directory⟩ => true
  | _ => false

variable [DecidableEq π]

def place (n : Inode) : Disk π := Function.update d f (some (.node n))

def edit (change : Inode → Inode) : Disk π :=
  match d.nodeAt f with
  | none => d
  | some n => d.place f (change n)

def truncate (mode : Nat) : Disk π := d.place f (d.written f mode [])

def fill (content : Bytes) : Disk π := d.edit f (·.fill content)

def setMode (mode : Nat) : Disk π := d.edit f fun n => { n with mode := mode }

def chmod (mode : Nat) : Disk π :=
  match d.lead p with
  | none => d
  | some f => d.setMode f mode

def rename (old new : π) : Disk π := Function.update (Function.update d new (d old)) old none

def remove : Disk π := Function.update d p none

end

/-! ### Reading a directory -/

variable {d : Disk π} {p q f g : π} {n : Inode}

theorem nodeAt_entry (here : d.nodeAt f = some n) : d f = some (.node n) := by
  unfold nodeAt at here
  split at here
  · obtain rfl := Option.some.inj here
    assumption
  · cases here

theorem nodeAt_of_entry (here : d f = some (.node n)) : d.nodeAt f = some n := by rw [nodeAt,here]

theorem target_link (link : d.target p = some q) : d p = some (.link q) := by
  unfold target at link
  split at link
  · obtain rfl := Option.some.inj link
    assumption
  · cases link

theorem target_node (here : d f = some (.node n)) : d.target f = none := by rw [target,here]

theorem target_of_nodeAt (here : d.nodeAt f = some n) : d.target f = none := target_node (nodeAt_entry here)

theorem target_missing (missing : d f = none) : d.target f = none := by rw [target,missing]

theorem nodeAt_missing (missing : d f = none) : d.nodeAt f = none := by rw [nodeAt,missing]

theorem lead_end (leads : d.lead p = some f) : d.target f = none := SymLinks.follow_end leads

theorem lead_self (plain : d.target p = none) : d.lead p = some p := SymLinks.follow_file plain

theorem chain_self (plain : d.target p = none) : d.chain p = [p] := SymLinks.chain_file plain

theorem mem_chain (d : Disk π) (p : π) : p ∈ d.chain p := SymLinks.mem_chain d.target maxLinks p

theorem lead_mem_chain (leads : d.lead p = some f) : f ∈ d.chain p := SymLinks.end_mem_chain leads

theorem found_node (here : d p = some (.node n)) : d.found p = some n := by
  rw [found,lead_self (target_node here),Option.bind_some,nodeAt_of_entry here]

theorem found_missing (missing : d p = none) : d.found p = none := by
  rw [found,lead_self (target_missing missing),Option.bind_some,nodeAt_missing missing]

theorem opening_plain (plain : d.target p = none) : d.opening p =
    match d.nodeAt p with
    | none => .done p
    | some n =>
      match n.body.writing with
      | .done () => .done p
      | .failed => .failed
      | .never => .never := by rw [opening,lead_self plain]

theorem lead_of_opening (opened : d.opening p = .done f) : d.lead p = some f := by
  unfold opening at opened
  split at opened
  next none => cases opened
  next g leads =>
    split at opened
    next missing =>
      obtain rfl := SysCall.done.inj opened
      exact leads
    next n here =>
      split at opened
      · obtain rfl := SysCall.done.inj opened
        exact leads
      · cases opened
      · cases opened

theorem free_of_opening (opened : d.opening p = .done f) : d.target f = none := lead_end (lead_of_opening opened)

theorem Inode.fill_fill (first second : Bytes) (n : Inode) : (n.fill first).fill second = n.fill second := by
  obtain ⟨uid,mode,body⟩ := n
  cases body <;> rfl

theorem Inode.isFile_fill (content : Bytes) (n : Inode) : (n.fill content).body.isFile = n.body.isFile := by
  obtain ⟨uid,mode,body⟩ := n
  cases body <;> rfl

theorem Inode.fill_file (content : Bytes) (n : Inode) (file : (n.fill content).body.isFile = true) :
    (n.fill content).body = .file (some content) := by
  obtain ⟨uid,mode,body⟩ := n
  cases body with
  | file => rfl
  | directory | socket | fifo | device => cases file

theorem written_fill (d : Disk π) (f : π) (mode : Nat) (first second : Bytes) :
    (d.written f mode first).fill second = d.written f mode second := by
  unfold written
  cases d.nodeAt f with
  | none => rfl
  | some n => exact n.fill_fill first second

/-! ### Two directories that agree along a chain -/

/-- What `p` leads to is the same, and so are the links on the way. -/
def Same (d e : Disk π) (p : π) : Prop := ∀ q ∈ d.chain p, e q = d q

namespace Same

variable {e : Disk π}

theorem refl (d : Disk π) (p : π) : d.Same d p := fun _ _ => rfl

theorem entry (same : d.Same e p) : e p = d p := same p (mem_chain d p)

theorem chain (same : d.Same e p) : e.chain p = d.chain p ∧ e.lead p = d.lead p := by
  refine SymLinks.chain_agree fun q member => ?_
  rw [target,target,same q member]

theorem trans {c : Disk π} (first : c.Same d p) (second : d.Same e p) : c.Same e p := by
  intro q member
  rw [second q (by rwa [first.chain.1]),first q member]

theorem found (same : d.Same e p) : e.found p = d.found p := by
  rw [Disk.found,Disk.found,same.chain.2]
  cases leads : d.lead p with
  | none => rfl
  | some f => rw [Option.bind_some,Option.bind_some,nodeAt,nodeAt,same f (lead_mem_chain leads)]

theorem opening (same : d.Same e p) : e.opening p = d.opening p := by
  rw [Disk.opening,Disk.opening,same.chain.2]
  cases leads : d.lead p with
  | none => rfl
  | some f =>
    dsimp only
    rw [nodeAt,nodeAt,same f (lead_mem_chain leads)]

theorem isDirectory (same : d.Same e p) : e.isDirectory p = d.isDirectory p := by
  rw [Disk.isDirectory,Disk.isDirectory,nodeAt,nodeAt,same.entry]

end Same

/-! ### Changing a directory -/

variable [DecidableEq π]

theorem place_self (d : Disk π) (f : π) (n : Inode) : d.place f n f = some (.node n) := Function.update_self ..

theorem place_other (n : Inode) (other : q ≠ f) : d.place f n q = d q := Function.update_of_ne other ..

theorem nodeAt_place (d : Disk π) (f : π) (n : Inode) : (d.place f n).nodeAt f = some n :=
  nodeAt_of_entry (place_self d f n)

theorem isFile_place (d : Disk π) (f : π) (n : Inode) : (d.place f n).isFile f = n.body.isFile := by
  rw [isFile,nodeAt_place]

theorem nodeAt_place_other (n : Inode) (other : q ≠ f) : (d.place f n).nodeAt q = d.nodeAt q := by
  rw [nodeAt,place_other n other,← nodeAt]

/-- A node put where no link is leaves the links alone. -/
theorem target_place (n : Inode) (free : d.target f = none) : (d.place f n).target = d.target := by
  funext r
  by_cases same : r = f
  · subst r
    rw [free,target_node (place_self d _ n)]
  · rw [target,place_other n same,← target]

theorem lead_place (n : Inode) (free : d.target f = none) : (d.place f n).lead = d.lead := by
  unfold lead
  rw [target_place n free]

theorem place_place (d : Disk π) (f : π) (m n : Inode) : (d.place f m).place f n = d.place f n :=
  Function.update_idem ..

theorem found_place (n : Inode) (free : d.target f = none) (apart : d.lead p ≠ some f) :
    (d.place f n).found p = d.found p := by
  rw [found,found,lead_place n free]
  cases leads : d.lead p with
  | none => rfl
  | some q =>
    have other : q ≠ f := fun same => apart (same ▸ leads)
    rw [Option.bind_some,Option.bind_some,nodeAt_place_other n other]

theorem edit_eq (change : Inode → Inode) (here : d.nodeAt f = some n) : d.edit f change = d.place f (change n) := by
  rw [edit,here]

theorem edit_missing (change : Inode → Inode) (missing : d.nodeAt f = none) : d.edit f change = d := by
  rw [edit,missing]

theorem edit_place (d : Disk π) (f : π) (n : Inode) (change : Inode → Inode) :
    (d.place f n).edit f change = d.place f (change n) := by rw [edit_eq change (nodeAt_place d f n),place_place]

theorem edit_other (change : Inode → Inode) (other : q ≠ f) : d.edit f change q = d q := by
  cases here : d.nodeAt f with
  | none => rw [edit_missing change here]
  | some n => rw [edit_eq change here,place_other _ other]

theorem target_edit (d : Disk π) (f : π) (change : Inode → Inode) : (d.edit f change).target = d.target := by
  cases here : d.nodeAt f with
  | none => rw [edit_missing change here]
  | some n => rw [edit_eq change here,target_place _ (target_of_nodeAt here)]

theorem lead_edit (d : Disk π) (f : π) (change : Inode → Inode) : (d.edit f change).lead = d.lead := by
  unfold lead
  rw [target_edit]

theorem found_edit (change : Inode → Inode) (apart : d.lead p ≠ some f) : (d.edit f change).found p = d.found p := by
  cases here : d.nodeAt f with
  | none => rw [edit_missing change here]
  | some n => rw [edit_eq change here,found_place _ (target_of_nodeAt here) apart]

theorem found_edit_same (change : Inode → Inode) (leads : d.lead p = some f) :
    (d.edit f change).found p = (d.found p).map change := by
  rw [found,found,lead_edit,leads,Option.bind_some,Option.bind_some]
  cases here : d.nodeAt f with
  | none => rw [edit_missing change here,here,Option.map_none]
  | some n => rw [edit_eq change here,nodeAt_place,Option.map_some]

theorem truncate_fill (d : Disk π) (f : π) (mode : Nat) (content : Bytes) :
    (d.truncate f mode).fill f content = d.place f (d.written f mode content) := by
  rw [truncate,fill,edit_place,written_fill]

theorem fill_place (d : Disk π) (f : π) (n : Inode) (content : Bytes) :
    (d.place f n).fill f content = d.place f (n.fill content) := edit_place ..

theorem chmod_other (mode : Nat) (apart : q ∉ d.chain p) : d.chmod p mode q = d q := by
  unfold chmod
  cases leads : d.lead p with
  | none => rfl
  | some f =>
    have other : q ≠ f := fun same => apart (same ▸ lead_mem_chain leads)
    exact edit_other _ other

theorem target_chmod (d : Disk π) (p : π) (mode : Nat) : (d.chmod p mode).target = d.target := by
  unfold chmod
  split
  · rfl
  · exact target_edit ..

theorem rename_new (d : Disk π) (apart : q ≠ p) : d.rename p q q = d p := by
  rw [rename,Function.update_of_ne apart,Function.update_self]

theorem rename_old (d : Disk π) (old new : π) : d.rename old new old = none := Function.update_self ..

theorem rename_other (d : Disk π) (notOld : f ≠ p) (notNew : f ≠ q) : d.rename p q f = d f := by
  rw [rename,Function.update_of_ne notOld,Function.update_of_ne notNew]

theorem target_rename (d : Disk π) (old new : π) : (d.rename old new).target =
    Function.update (Function.update d.target new (d.target old)) old none := by
  funext r
  by_cases gone : r = old
  · subst r
    rw [Function.update_self,target_missing (rename_old d _ new)]
  · by_cases taken : r = new
    · subst r
      rw [Function.update_of_ne gone,Function.update_self,target,rename_new d gone,← target]
    · rw [Function.update_of_ne gone,Function.update_of_ne taken,target,rename_other d gone taken,← target]

theorem remove_self (d : Disk π) (p : π) : d.remove p p = none := Function.update_self ..

theorem remove_other (d : Disk π) (other : q ≠ p) : d.remove p q = d q := Function.update_of_ne other ..

theorem target_remove (d : Disk π) (p : π) : (d.remove p).target = Function.update d.target p none := by
  funext r
  by_cases same : r = p
  · subst r
    rw [Function.update_self,target_missing (remove_self d _)]
  · rw [Function.update_of_ne same,target,remove_other d same,← target]

/-- An unlinked path takes nothing from one that leads elsewhere. -/
theorem found_remove (held : d.found q = some n) (apart : d.lead p ≠ d.lead q) : (d.remove p).found q = some n := by
  obtain ⟨g,leads,here⟩ := Option.bind_eq_some_iff.mp held
  have free := lead_end leads
  have other : g ≠ p := by
    rintro rfl
    exact apart (by rw [lead_self free,leads])
  have still : (d.remove p).lead q = some g := by
    rw [lead,target_remove]
    refine SymLinks.follow_agree (fun r there => ?_) leads
    have notRemoved : r ≠ p := by
      rintro rfl
      exact apart (by rw [leads]; exact there)
    exact Function.update_of_ne notRemoved ..
  rw [found,still,Option.bind_some,nodeAt,remove_other d other,← nodeAt]
  exact here

/-- A renamed name finds what it found, if the name it takes did not lead there. -/
theorem found_rename (leads : d.lead p = some f) (here : d.nodeAt f = some n) (apart : d.lead q ≠ some f) :
    (d.rename p q).found q = some n := by
  have different : q ≠ p := fun same => apart (same ▸ leads)
  cases link : d.target p with
  | none =>
    obtain rfl : p = f := Option.some.inj ((lead_self link).symm.trans leads)
    exact found_node (by rw [rename_new d different,nodeAt_entry here])
  | some r =>
    have ends := SymLinks.follow_renamed link leads apart
    have free := lead_end leads
    have notOld : f ≠ p := by
      rintro rfl
      rw [link] at free
      cases free
    have notNew : f ≠ q := by
      rintro rfl
      exact apart (lead_self free)
    have leads' : (d.rename p q).lead q = some f := by
      rw [lead,target_rename]
      exact ends
    rw [found,leads',Option.bind_some,nodeAt,rename_other d notOld notNew,← nodeAt]
    exact here

end Disk
