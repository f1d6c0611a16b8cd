import OK210Drivers.Aufs.Create

/-!
# Link counts and names in the aufs tree

`i_nlink` is set in the new inode and, for a directory, counted up in the parent.  The two agree with
the tree after every sequence of calls, failed ones included.
-/

open Library

namespace OK210Drivers.Aufs

/-- The dentry names a directory. -/
def State.is_dir (s : State) (d : Dentry) : Bool :=
  (d.d_inode.bind fun i ↦ s.inodes[i]?).any fun i ↦ decide (S_ISDIR i.i_mode)

/-- The number of subdirectories of what a dentry names. -/
def State.subdirs (s : State) (dentry : Nat) : Nat :=
  s.dentries.countP fun d ↦ decide (d.d_parent = some dentry) && s.is_dir d

/-- The link counts are those of the tree, and no name occurs twice in a directory. -/
structure WellFormed (s : State) : Prop where
  links : ∀ k i, s.inode? k = some i →
    i.i_nlink = if S_ISDIR i.i_mode then 2 + s.subdirs k else 1
  names : ∀ (k k' : Nat) (d d' : Dentry), s.dentries[k]? = some d → s.dentries[k']? = some d' →
    d.d_inode ≠ none → d'.d_inode ≠ none → d.d_parent = d'.d_parent → d.d_name = d'.d_name → k = k'

/-- The parent of what a call creates. -/
def Call.dir (s : State) (c : Call) : Option Nat :=
  if c.parent = none ∧ s.aufs_mount then some 0 else c.parent

/-- The name of a call is taken in its parent. -/
def Call.Taken (s : State) (c : Call) : Prop :=
  ∃ d ∈ s.dentries, d.d_inode ≠ none ∧ d.d_parent = c.dir s ∧ d.d_name = c.name

/-- The inodes and their names are the same. -/
def SameTree (s t : State) : Prop :=
  t.inodes = s.inodes ∧ ∀ d : Dentry, d.d_inode ≠ none → (d ∈ t.dentries ↔ d ∈ s.dentries)

/-- What every sequence of calls keeps. -/
structure Inv (s : State) : Prop where
  links : ∀ k i, s.inode? k = some i →
    i.i_nlink = if S_ISDIR i.i_mode then 2 + s.subdirs k else 1
  names : ∀ (k k' : Nat) (d d' : Dentry), s.dentries[k]? = some d → s.dentries[k']? = some d' →
    d.d_parent = d'.d_parent → d.d_name = d'.d_name → k = k'
  valid : ∀ (k : Nat) (d : Dentry) (i : Nat), s.dentries[k]? = some d → d.d_inode = some i →
    i < s.inodes.length
  single : ∀ (k k' : Nat) (d d' : Dentry) (i : Nat), s.dentries[k]? = some d → s.dentries[k']? = some d' →
    d.d_inode = some i → d'.d_inode = some i → k = k'
  parents : ∀ (k : Nat) (d : Dentry) (p : Nat), s.dentries[k]? = some d → d.d_parent = some p →
    ∃ i, s.inode? p = some i
  root : ∃ i, s.inode? 0 = some i ∧ S_ISDIR i.i_mode

/-- `t` is `s` with a new inode for the negative dentry `k` of directory `p`, whose inode `dir` has `n`
more links. -/
structure Added (s t : State) (p dir k : Nat) (isdir : Prop) [Decidable isdir] (n : Nat) : Prop where
  dentries : ∃ d, s.dentries[k]? = some d ∧ d.d_inode = none ∧ d.d_parent = some p ∧
    t.dentries = s.dentries.set k { d with d_inode := some s.inodes.length }
  length : t.inodes.length = s.inodes.length + 1
  new : ∃ i, t.inodes[s.inodes.length]? = some i ∧ (S_ISDIR i.i_mode ↔ isdir) ∧
    i.i_nlink = if isdir then 2 else 1
  parent : ∃ i j, s.inodes[dir]? = some i ∧ t.inodes[dir]? = some j ∧ j.i_mode = i.i_mode ∧
    j.i_nlink = i.i_nlink + n
  other : ∀ i < s.inodes.length, i ≠ dir → t.inodes[i]? = s.inodes[i]?

section Modes

variable {mode : Mode}

theorem isdir_or_sgid : S_ISDIR (mode ||| S_ISGID) ↔ S_ISDIR mode := by
  have hmask : S_ISGID &&& S_IFMT = 0 := by decide
  unfold S_ISDIR
  rw [BitVec.and_or_distrib_right, hmask]
  exact Iff.of_eq (congrArg (· = S_IFDIR) BitVec.or_zero)

theorem isdir_mkdir (h : mode &&& S_IFMT = S_IFDIR) : S_ISDIR (mode ||| S_IFDIR) := by
  unfold S_ISDIR
  rw [BitVec.and_or_distrib_right, h]
  decide

-- The bit of `S_IFREG` is not in `S_IFDIR`.
theorem not_isdir_create : ¬S_ISDIR (mode ||| S_IFREG) := by
  intro h
  have hbit := congrArg (fun m : Mode ↦ m.getLsbD 15) h
  simp [S_IFMT, S_IFREG, S_IFDIR] at hbit

end Modes

section Added

variable {s t : State} {p dir k n : Nat} {isdir : Prop} [Decidable isdir] {mode : Mode} {env : Env}
  {d : Dentry}

theorem Added.congr {isdir' : Prop} [Decidable isdir'] (h : Added s t p dir k isdir n)
    (hiff : isdir ↔ isdir') : Added s t p dir k isdir' n where
  dentries := h.dentries
  length := h.length
  new := by
    obtain ⟨i, hi, htype, hlink⟩ := h.new
    refine ⟨i, hi, htype.trans hiff, ?_⟩
    rw [hlink]
    exact if_congr hiff rfl rfl
  parent := h.parent
  other := h.other

-- A change to the new inode that keeps its type and its link count.
theorem Added.modify_new (h : Added s t p dir k isdir n) (hdir : dir < s.inodes.length) {f : Inode → Inode}
    (htype : ∀ i, S_ISDIR (f i).i_mode ↔ S_ISDIR i.i_mode) (hlink : ∀ i, (f i).i_nlink = i.i_nlink) :
    Added s { t with inodes := t.inodes.modify s.inodes.length f } p dir k isdir n where
  dentries := h.dentries
  length := by
    rw [List.length_modify]
    exact h.length
  new := by
    obtain ⟨i, hi, hdi, hni⟩ := h.new
    refine ⟨f i, ?_, (htype i).trans hdi, (hlink i).trans hni⟩
    rw [List.getElem?_modify_eq, hi]
    rfl
  parent := by
    obtain ⟨i, j, hi, hj, hm, hl⟩ := h.parent
    refine ⟨i, j, hi, ?_, hm, hl⟩
    rw [List.getElem?_modify_ne _ _ (by omega)]
    exact hj
  other := by
    intro i hlt hne
    rw [List.getElem?_modify_ne _ _ (by omega)]
    exact h.other i hlt hne

-- One more link for the parent.
theorem Added.count (h : Added s t p dir k isdir n) (hdir : dir < s.inodes.length) :
    Added s { t with inodes := t.inodes.modify dir fun i ↦ { i with i_nlink := i.i_nlink + 1 } }
      p dir k isdir (n + 1) where
  dentries := h.dentries
  length := by
    rw [List.length_modify]
    exact h.length
  new := by
    obtain ⟨i, hi, hrest⟩ := h.new
    refine ⟨i, ?_, hrest⟩
    rw [List.getElem?_modify_ne _ _ (by omega)]
    exact hi
  parent := by
    obtain ⟨i, j, hi, hj, hm, hl⟩ := h.parent
    refine ⟨i, { j with i_nlink := j.i_nlink + 1 }, hi, ?_, hm, ?_⟩
    · rw [List.getElem?_modify_eq, hj]
      rfl
    · show j.i_nlink + 1 = _
      omega
  other := by
    intro i hlt hne
    rw [List.getElem?_modify_ne _ _ (Ne.symm hne)]
    exact h.other i hlt hne

theorem aufs_get_inode_adds (s : State) (mode : Mode) (hyes : env.new_inode = true) :
    ∃ inode : Inode, aufs_get_inode s mode env =
        (some s.inodes.length, { s with inodes := s.inodes ++ [inode] }) ∧
      (S_ISDIR inode.i_mode ↔ S_ISDIR mode) ∧ inode.i_nlink = if S_ISDIR mode then 2 else 1 := by
  unfold aufs_get_inode
  rw [if_pos hyes]
  refine ⟨_, rfl, ?_⟩
  by_cases hreg : mode &&& S_IFMT = S_IFREG
  · have hnot : ¬S_ISDIR mode := by
      unfold S_ISDIR
      rw [hreg]
      decide
    rw [if_pos hreg, if_neg hnot]
    exact ⟨Iff.rfl, rfl⟩
  · rw [if_neg hreg]
    by_cases hdir : S_ISDIR mode
    · rw [if_pos hdir, if_pos (show mode &&& S_IFMT = S_IFDIR from hdir)]
      exact ⟨Iff.rfl, rfl⟩
    · rw [if_neg hdir, if_neg (show ¬mode &&& S_IFMT = S_IFDIR from hdir)]
      exact ⟨Iff.rfl, rfl⟩

theorem inherit_gid_type {parent : Inode} (i : Inode) :
    S_ISDIR (inherit_gid parent mode i).i_mode ↔ S_ISDIR i.i_mode := by
  unfold inherit_gid
  by_cases hsgid : parent.i_mode &&& S_ISGID ≠ 0
  · rw [if_pos hsgid]
    show S_ISDIR (if S_ISDIR mode then i.i_mode ||| S_ISGID else i.i_mode) ↔ _
    by_cases hm : S_ISDIR mode
    · rw [if_pos hm]
      exact isdir_or_sgid
    · rw [if_neg hm]
  · rw [if_neg hsgid]

theorem inherit_gid_i_nlink {parent : Inode} (i : Inode) :
    (inherit_gid parent mode i).i_nlink = i.i_nlink := by
  unfold inherit_gid
  by_cases hsgid : parent.i_mode &&& S_ISGID ≠ 0
  · rw [if_pos hsgid]
  · rw [if_neg hsgid]

theorem aufs_mknod_taken {dentry : Nat} (hd : s.dentries[dentry]? = some d) (htaken : d.d_inode ≠ none) :
    aufs_mknod s dir dentry mode env = some (-EEXIST, s) := by
  simp only [aufs_mknod, hd, Option.bind_eq_bind, Option.bind_some, if_pos htaken]

theorem aufs_mknod_fails (hd : s.dentries[k]? = some d) (hneg : d.d_inode = none)
    (hno : env.new_inode = false) : aufs_mknod s dir k mode env = some (-EPERM, s) := by
  have hget : aufs_get_inode s mode env = (none, s) := by
    unfold aufs_get_inode
    rw [hno]
    rfl
  simp only [aufs_mknod, hd, Option.bind_eq_bind, Option.bind_some, hneg, hget]
  rfl

/-- A negative dentry gets the new inode. -/
theorem aufs_mknod_adds (mode : Mode) (hd : s.dentries[k]? = some d) (hneg : d.d_inode = none)
    (hp : d.d_parent = some p) (hdir : dir < s.inodes.length) (hyes : env.new_inode = true) :
    ∃ t, aufs_mknod s dir k mode env = some (0, t) ∧
      Added s t p dir k (S_ISDIR mode) 0 := by
  obtain ⟨inode, hget, htype, hlink⟩ := aufs_get_inode_adds s mode hyes
  have hparent : s.inodes[dir]? = some s.inodes[dir] := List.getElem?_eq_getElem hdir
  have happ : (s.inodes ++ [inode])[dir]? = some s.inodes[dir] := by
    rw [List.getElem?_append_left hdir]
    exact hparent
  have hadd : Added s ⟨s.inodes ++ [inode], s.dentries.set k { d with d_inode := some s.inodes.length },
      s.aufs_mount⟩ p dir k (S_ISDIR mode) 0 := by
    refine ⟨⟨d, hd, hneg, hp, rfl⟩, List.length_append, ⟨inode, ?_, htype, hlink⟩,
      ⟨_, _, hparent, happ, rfl, rfl⟩, ?_⟩
    · exact List.getElem?_concat_length
    · intro i hlt _
      exact List.getElem?_append_left hlt
  refine ⟨_, ?_, hadd.modify_new hdir (f := inherit_gid s.inodes[dir] mode) inherit_gid_type
    inherit_gid_i_nlink⟩
  simp only [aufs_mknod, hd, Option.bind_eq_bind, Option.bind_some, hneg, hget, happ]
  rfl

end Added

end OK210Drivers.Aufs
