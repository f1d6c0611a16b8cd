import OK210Drivers.Aufs.Create

/-!
# A failed lookup in aufs

`lookup_one_len` can return an error pointer.  Here it is a parameter, a pointer is more than the
place of a dentry, and the calls of `aufs_mkdir` and `aufs_create` are recorded, so that a creation
that ends in an invalid access still shows what it has called.
-/

namespace OK210Drivers.Aufs.LookupError

/-- A pointer of the kernel: null, a dentry, a variable on the stack, or the error pointer for an error
number. -/
inductive Pointer
  | null
  | dentry (k : Nat)
  | variable_
  | error (e : Int)
  deriving DecidableEq

def IS_ERR : Pointer → Bool
  | .error _ => true
  | _ => false

-- Nothing is known about the address of an object.
def PTR_ERR : Pointer → Option Int
  | .error e => some e
  | _ => none

/-- The dentry behind a pointer; an access through any other pointer has no result. -/
def Pointer.deref : Pointer → Option Nat
  | .dentry k => some k
  | _ => none

/-- A call of `aufs_mkdir` or `aufs_create`. -/
inductive Made
  | mkdir (dir : Nat) (dentry : Pointer)
  | create (dir : Nat) (dentry : Pointer)
  deriving DecidableEq

/-- The calls made, and the result if there is one. -/
structure Outcome (α : Type) where
  calls : List Made
  result : Option α

variable (lookup : State → String → Nat → Pointer × State)

/-- `aufs_create_by_name(name, mode, parent, &dentry)`: the error, the variable `dentry` afterwards and
the state.  The argument of `IS_ERR` and `PTR_ERR` is the address of that variable. -/
def aufs_create_by_name (s : State) (name : String) (mode : Mode) (parent : Option Nat) (env : Env) :
    Outcome (Int × Pointer × State) :=
  let parent := if parent = none ∧ s.aufs_mount then some 0 else parent
  match parent with
  | none => ⟨[], some (-EFAULT, .null, s)⟩
  | some parent =>
    match s.dentries[parent]?.bind Dentry.d_inode with
    | none => ⟨[], none⟩
    | some dir =>
      let (dentry, s) := lookup s name parent
      let dentry_p : Pointer := .variable_
      if IS_ERR dentry_p = false then
        if mode &&& S_IFMT = S_IFDIR then
          ⟨[.mkdir dir dentry], do
            let (error, s) ← aufs_mkdir s dir (← dentry.deref) mode env
            some (error, dentry, s)⟩
        else
          ⟨[.create dir dentry], do
            let (error, s) ← aufs_create s dir (← dentry.deref) mode env
            some (error, dentry, s)⟩
      else ⟨[], (PTR_ERR dentry_p).map fun error ↦ (error, dentry, s)⟩

/-- `aufs_create_file`: what it returns and the state. -/
def aufs_create_file (s : State) (name : String) (mode : Mode) (parent data fops : Option Nat)
    (env : Env) : Outcome (Pointer × State) :=
  let o := aufs_create_by_name lookup s name mode parent env
  ⟨o.calls, do
    let (error, dentry, s) ← o.result
    if error ≠ 0 then some (.null, s)
    else do
      let d ← s.dentries[← dentry.deref]?
      match d.d_inode with
      | none => some (dentry, s)
      | some inode =>
        some (dentry, { s with
          inodes := s.inodes.modify inode fun i ↦ { i with
            generic_ip := if data = none then i.generic_ip else data
            i_fop := (fops.map Fops.given).getD i.i_fop } })⟩

/-- The lookup that always finds or makes a dentry. -/
def cached (s : State) (name : String) (parent : Nat) : Pointer × State :=
  let r := lookup_one_len s name parent
  (.dentry r.1, r.2)

variable {s : State} {name : String} {mode : Mode} {parent data fops : Option Nat} {env : Env}

/-- The creation stops when the lookup returns the error pointer for `e`: `e` is returned and nothing is
called, `aufs_create_file` returns null, and the parent's link count and the inodes are as before. -/
def StopsOnError (s : State) (name : String) (mode : Mode) (parent data fops : Option Nat) (env : Env)
    (dir : Nat) (e : Int) : Prop :=
  (aufs_create_by_name lookup s name mode parent env).calls = [] ∧
  (∃ dentry t, (aufs_create_by_name lookup s name mode parent env).result = some (e, dentry, t)) ∧
  ∃ t, (aufs_create_file lookup s name mode parent data fops env).result = some (.null, t) ∧
    t.inodes[dir]?.map Inode.i_nlink = s.inodes[dir]?.map Inode.i_nlink ∧
    t.inodes.length = s.inodes.length

/-- With that lookup the creation is the one that knows no error pointers. -/
theorem create_by_name_cached :
    (aufs_create_by_name cached s name mode parent env).result =
      (Aufs.aufs_create_by_name s name mode parent env).map fun r ↦
        (r.1, (r.2.1.map Pointer.dentry).getD .null, r.2.2) := by
  unfold aufs_create_by_name Aufs.aufs_create_by_name
  cases hp : (if parent = none ∧ s.aufs_mount then some 0 else parent) with
  | none => rfl
  | some p =>
    simp only [Option.bind_eq_bind]
    cases hd : s.dentries[p]? with
    | none => rfl
    | some d =>
      simp only [Option.bind_some]
      cases hi : d.d_inode with
      | none => rfl
      | some dir =>
        simp only [IS_ERR, cached, Pointer.deref, if_true, Option.bind_some]
        by_cases hmode : mode &&& S_IFMT = S_IFDIR
        · simp only [if_pos hmode]
          cases aufs_mkdir (lookup_one_len s name p).2 dir (lookup_one_len s name p).1 mode env <;> rfl
        · simp only [if_neg hmode]
          cases aufs_create (lookup_one_len s name p).2 dir (lookup_one_len s name p).1 mode env <;> rfl

variable {lookup : State → String → Nat → Pointer × State}

/-- The address of the variable is no error, so the next function is called with the error pointer,
and its first access has no result. -/
theorem create_by_name_error (mode : Mode) (env : Env) {p dir : Nat} {e : Int} {t : State}
    (hparent : (if parent = none ∧ s.aufs_mount then some 0 else parent) = some p)
    (hdir : s.dentries[p]?.bind Dentry.d_inode = some dir)
    (herr : lookup s name p = (.error e, t)) :
    aufs_create_by_name lookup s name mode parent env =
      ⟨[if mode &&& S_IFMT = S_IFDIR then .mkdir dir (.error e) else .create dir (.error e)],
        none⟩ := by
  unfold aufs_create_by_name
  simp only [hparent, hdir, herr, IS_ERR, if_true]
  by_cases hmode : mode &&& S_IFMT = S_IFDIR
  · simp only [if_pos hmode]
    rfl
  · simp only [if_neg hmode]
    rfl

/-- A failed lookup never stops the creation: whatever the name, the mode, the parent directory and the
error are, `aufs_mkdir` or `aufs_create` is called with the error pointer, and does not return. -/
theorem failed_lookup_not_stopped {p dir : Nat} {e : Int} {t : State}
    (hparent : (if parent = none ∧ s.aufs_mount then some 0 else parent) = some p)
    (hdir : s.dentries[p]?.bind Dentry.d_inode = some dir)
    (herr : lookup s name p = (.error e, t)) :
    (aufs_create_by_name lookup s name mode parent env).calls ≠ [] ∧
    (aufs_create_file lookup s name mode parent data fops env).result = none ∧
    ¬ StopsOnError lookup s name mode parent data fops env dir e := by
  have hmade := create_by_name_error mode env hparent hdir herr
  refine ⟨?_, ?_, ?_⟩
  · rw [hmade]
    exact List.cons_ne_nil _ _
  · rw [aufs_create_file, hmade]
    rfl
  · rintro ⟨hcalls, _⟩
    rw [hmade] at hcalls
    exact List.cons_ne_nil _ _ hcalls

-- No memory for the dentry of a new directory in the root.
theorem failed_lookup_not_stopped_enomem :
    ¬ StopsOnError (fun s _ _ ↦ (.error (-12), s)) (root_only ⟨S_IFDIR, 0, 0, 2, .special, none⟩ true)
      "a" S_IFDIR none none none ⟨true, 0, 0⟩ 0 (-12) :=
  (failed_lookup_not_stopped rfl rfl rfl).2.2

/-- `aufs_mkdir` gets the error pointer as the dentry to make. -/
theorem mkdir_on_error_pointer :
    (aufs_create_by_name (fun s _ _ ↦ (.error (-12), s))
      (root_only ⟨S_IFDIR, 0, 0, 2, .special, none⟩ true) "a" S_IFDIR none ⟨true, 0, 0⟩).calls =
        [.mkdir 0 (.error (-12))] ∧
    ¬ StopsOnError (fun s _ _ ↦ (.error (-12), s)) (root_only ⟨S_IFDIR, 0, 0, 2, .special, none⟩ true)
      "a" S_IFDIR none none none ⟨true, 0, 0⟩ 0 (-12) := by
  have hcalls : (aufs_create_by_name (fun s _ _ ↦ (.error (-12), s))
      (root_only ⟨S_IFDIR, 0, 0, 2, .special, none⟩ true) "a" S_IFDIR none ⟨true, 0, 0⟩).calls =
        [.mkdir 0 (.error (-12))] := rfl
  refine ⟨hcalls, fun h ↦ ?_⟩
  exact List.cons_ne_nil _ _ (hcalls.symm.trans h.1)

end OK210Drivers.Aufs.LookupError
