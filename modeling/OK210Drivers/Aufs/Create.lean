import Mathlib.Data.Nat.Basic
import OK210Drivers.Library.Runs

/-!
# Files and directories of aufs

`aufs_create_file` and `aufs_create_dir` with what they call.  Inodes and dentries are named by their place
in the order in which the kernel hands them out; an access through a pointer that is null has no result
(`none`).
-/

open Library

namespace OK210Drivers.Aufs

def EPERM : Int := 1
def EFAULT : Int := 14
def EEXIST : Int := 17

/-- `mode_t`. -/
abbrev Mode := BitVec 16

def S_IFMT : Mode := 0xf000
def S_IFREG : Mode := 0x8000
def S_IFDIR : Mode := 0x4000
def S_ISGID : Mode := 0x0400
def S_IRWXU : Mode := 0x01c0
def S_IRUGO : Mode := 0x0124
def S_IXUGO : Mode := 0x0049

def S_ISDIR (mode : Mode) : Prop := mode &&& S_IFMT = S_IFDIR

instance (mode : Mode) : Decidable (S_ISDIR mode) := inferInstanceAs (Decidable (_ = _))

/-- The tables of functions that an inode can get. -/
inductive Fops
  | special
  | aufs_file_operations
  | simple_dir_operations
  | given (fops : Nat)
  deriving DecidableEq

structure Inode where
  i_mode : Mode
  i_uid : Nat
  i_gid : Nat
  i_nlink : Nat
  i_fop : Fops
  generic_ip : Option Nat
  deriving DecidableEq

structure Dentry where
  d_parent : Option Nat
  d_name : String
  d_inode : Option Nat
  deriving DecidableEq

/-- The inodes and the dentries, with the root first, and whether `aufs_mount` is set. -/
structure State where
  inodes : List Inode
  dentries : List Dentry
  aufs_mount : Bool

/-- What a call finds: whether `new_inode` has an inode, and the caller's `fsuid` and `fsgid`. -/
structure Env where
  new_inode : Bool
  fsuid : Nat
  fsgid : Nat

/-- `lookup_one_len`: the dentry cached under the name in the parent, or else a new negative one. -/
def lookup_one_len (s : State) (name : String) (parent : Nat) : Nat × State :=
  match s.dentries.findIdx? fun d ↦ d.d_parent = some parent ∧ d.d_name = name with
  | some dentry => (dentry, s)
  | none => (s.dentries.length, { s with dentries := s.dentries ++ [⟨some parent, name, none⟩] })

/-- A new inode starts with the link count 1; a directory gets one more for its "." entry. -/
def aufs_get_inode (s : State) (mode : Mode) (env : Env) : Option Nat × State :=
  if env.new_inode then
    let inode : Inode :=
      if mode &&& S_IFMT = S_IFREG then ⟨mode, env.fsuid, env.fsgid, 1, .aufs_file_operations, none⟩
      else if mode &&& S_IFMT = S_IFDIR then
        ⟨mode, env.fsuid, env.fsgid, 1 + 1, .simple_dir_operations, none⟩
      else ⟨mode, env.fsuid, env.fsgid, 1, .special, none⟩
    (some s.inodes.length, { s with inodes := s.inodes ++ [inode] })
  else (none, s)

/-- What an inode takes over from a directory with `S_ISGID`. -/
def inherit_gid (dir : Inode) (mode : Mode) (inode : Inode) : Inode :=
  if dir.i_mode &&& S_ISGID ≠ 0 then
    { inode with
      i_gid := dir.i_gid
      i_mode := if S_ISDIR mode then inode.i_mode ||| S_ISGID else inode.i_mode }
  else inode

def aufs_mknod (s : State) (dir dentry : Nat) (mode : Mode) (env : Env) : Option (Int × State) := do
  let d ← s.dentries[dentry]?
  if d.d_inode ≠ none then some (-EEXIST, s)
  else
    match aufs_get_inode s mode env with
    | (none, s) => some (-EPERM, s)
    | (some inode, s) => do
      let parent ← s.inodes[dir]?
      some (0, { s with
        inodes := s.inodes.modify inode (inherit_gid parent mode)
        dentries := s.dentries.set dentry { d with d_inode := some inode } })

def aufs_mkdir (s : State) (dir dentry : Nat) (mode : Mode) (env : Env) : Option (Int × State) := do
  let (res, s) ← aufs_mknod s dir dentry (mode ||| S_IFDIR) env
  if res = 0 then
    some (res, { s with inodes := s.inodes.modify dir fun i ↦ { i with i_nlink := i.i_nlink + 1 } })
  else some (res, s)

def aufs_create (s : State) (dir dentry : Nat) (mode : Mode) (env : Env) : Option (Int × State) :=
  aufs_mknod s dir dentry (mode ||| S_IFREG) env

/-- The error and the dentry.  `IS_ERR` looks at the address of the caller's variable, which is never
one of an error. -/
def aufs_create_by_name (s : State) (name : String) (mode : Mode) (parent : Option Nat) (env : Env) :
    Option (Int × Option Nat × State) :=
  let parent := if parent = none ∧ s.aufs_mount then some 0 else parent
  match parent with
  | none => some (-EFAULT, none, s)
  | some parent => do
    let d ← s.dentries[parent]?
    let dir ← d.d_inode
    let (dentry, s) := lookup_one_len s name parent
    let (error, s) ←
      if mode &&& S_IFMT = S_IFDIR then aufs_mkdir s dir dentry mode env
      else aufs_create s dir dentry mode env
    some (error, some dentry, s)

def aufs_create_file (s : State) (name : String) (mode : Mode) (parent data fops : Option Nat)
    (env : Env) : Option (Option Nat × State) := do
  let (error, dentry, s) ← aufs_create_by_name s name mode parent env
  if error ≠ 0 then some (none, s)
  else do
    let dentry ← dentry
    let d ← s.dentries[dentry]?
    match d.d_inode with
    | none => some (some dentry, s)
    | some inode =>
      some (some dentry, { s with
        inodes := s.inodes.modify inode fun i ↦ { i with
          generic_ip := if data = none then i.generic_ip else data
          i_fop := (fops.map Fops.given).getD i.i_fop } })

def aufs_create_dir (s : State) (name : String) (parent : Option Nat) (env : Env) :
    Option (Option Nat × State) :=
  aufs_create_file s name (S_IFDIR ||| S_IRWXU ||| S_IRUGO ||| S_IXUGO) parent none none env

/-- The inode that a dentry names. -/
def State.inode? (s : State) (dentry : Nat) : Option Inode :=
  s.dentries[dentry]?.bind fun d ↦ d.d_inode.bind fun i ↦ s.inodes[i]?

inductive Call
  | create_file (name : String) (mode : Mode) (parent data fops : Option Nat)
  | create_dir (name : String) (parent : Option Nat)

def Call.name : Call → String
  | .create_file name _ _ _ _ => name
  | .create_dir name _ => name

def Call.parent : Call → Option Nat
  | .create_file _ _ parent _ _ => parent
  | .create_dir _ parent => parent

def exec (s : State) (c : Call) (env : Env) : Option (Option Nat × State) :=
  match c with
  | .create_file name mode parent data fops => aufs_create_file s name mode parent data fops env
  | .create_dir name parent => aufs_create_dir s name parent env

/-- The parent is null or an existing directory. -/
def Call.Admissible (s : State) (c : Call) : Prop :=
  ∀ p, c.parent = some p → ∃ dir, s.inode? p = some dir ∧ S_ISDIR dir.i_mode

/-- A call with its environment and the dentry that it returns. -/
structure Event where
  call : Call
  env : Env
  ret : Option Nat

def Step (s : State) (e : Event) (t : State) : Prop :=
  e.call.Admissible s ∧ exec s e.call e.env = some (e.ret, t)

/-- The file system after `simple_fill_super`: the root directory. -/
def root_only (root : Inode) (aufs_mount : Bool) : State where
  inodes := [root]
  dentries := [⟨none, "/", some 0⟩]
  aufs_mount := aufs_mount

end OK210Drivers.Aufs
