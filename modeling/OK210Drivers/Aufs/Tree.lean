import OK210Drivers.Aufs.Links

/-!
# The aufs tree after every sequence of calls
-/

open Library

namespace OK210Drivers.Aufs

section Lookup

variable {s : State} {p k : Nat} {d : Dentry} {i : Inode} {name : String}

theorem inode?_eq_some : s.inode? k = some i ↔
    ∃ (d : Dentry) (n : Nat), s.dentries[k]? = some d ∧ d.d_inode = some n ∧ s.inodes[n]? = some i := by
  unfold State.inode?
  constructor
  · intro h
    obtain ⟨d, hd, h⟩ := Option.bind_eq_some_iff.mp h
    obtain ⟨n, hn, hi⟩ := Option.bind_eq_some_iff.mp h
    exact ⟨d, n, hd, hn, hi⟩
  · rintro ⟨d, n, hd, hn, hi⟩
    rw [hd, Option.bind_some, hn, Option.bind_some]
    exact hi

theorem lookup_cached (h : Inv s) (hd : s.dentries[k]? = some d) (hp : d.d_parent = some p)
    (hname : d.d_name = name) : lookup_one_len s name p = (k, s) := by
  unfold lookup_one_len
  cases hfind : s.dentries.findIdx? fun e ↦ decide (e.d_parent = some p ∧ e.d_name = name) with
  | none =>
    have hno := List.findIdx?_eq_none_iff.mp hfind d (List.mem_of_getElem? hd)
    exact absurd ⟨hp, hname⟩ (of_decide_eq_false hno)
  | some j =>
    obtain ⟨hj, htrue, _⟩ := List.findIdx?_eq_some_iff_getElem.mp hfind
    obtain ⟨hpj, hnj⟩ := of_decide_eq_true htrue
    have hjk : j = k := h.names j k _ d (List.getElem?_eq_getElem hj) hd (hpj.trans hp.symm)
      (hnj.trans hname.symm)
    rw [hjk]

theorem lookup_uncached (h : ∀ d ∈ s.dentries, d.d_parent = some p → d.d_name ≠ name) :
    lookup_one_len s name p =
      (s.dentries.length, { s with dentries := s.dentries ++ [⟨some p, name, none⟩] }) := by
  unfold lookup_one_len
  have hfind : s.dentries.findIdx? (fun e ↦ decide (e.d_parent = some p ∧ e.d_name = name)) = none := by
    apply List.findIdx?_eq_none_iff.mpr
    intro e he
    exact decide_eq_false fun hboth ↦ h e he hboth.1 hboth.2
  rw [hfind]

-- The entries of a list with one more at its end.
theorem getElem?_snoc {α : Type} {l : List α} {a b : α} {k : Nat} (h : (l ++ [a])[k]? = some b) :
    l[k]? = some b ∨ k = l.length ∧ b = a := by
  rw [List.getElem?_append] at h
  by_cases hk : k < l.length
  · rw [if_pos hk] at h
    exact Or.inl h
  · rw [if_neg hk, List.getElem?_singleton] at h
    by_cases hzero : k - l.length = 0
    · rw [if_pos hzero] at h
      exact Or.inr ⟨by omega, (Option.some.inj h).symm⟩
    · rw [if_neg hzero] at h
      cases h

-- A negative dentry is nobody's subdirectory.
theorem subdirs_negative {k : Nat} :
    ({ s with dentries := s.dentries ++ [⟨some p, name, none⟩] } : State).subdirs k = s.subdirs k := by
  have hneg : s.is_dir ⟨some p, name, none⟩ = false := rfl
  show List.countP (fun d ↦ decide (d.d_parent = some k) && s.is_dir d) (s.dentries ++ [_]) = _
  rw [List.countP_append, List.countP_singleton, hneg, Bool.and_false]
  rfl

/-- A negative dentry under a new name changes no link count. -/
theorem Inv.add_negative (h : Inv s) (hnew : ∀ d ∈ s.dentries, d.d_parent = some p → d.d_name ≠ name)
    (hp : s.inode? p = some i) :
    Inv { s with dentries := s.dentries ++ [⟨some p, name, none⟩] } := by
  obtain ⟨t, ht⟩ : ∃ t : State, t = { s with dentries := s.dentries ++ [⟨some p, name, none⟩] } := ⟨_, rfl⟩
  have hold : ∀ {k : Nat} {d : Dentry}, s.dentries[k]? = some d → t.dentries[k]? = some d := by
    intro k d hd
    rw [ht]
    show (s.dentries ++ _)[k]? = _
    rw [List.getElem?_append_left (List.getElem?_eq_some_iff.mp hd).1]
    exact hd
  have hentry : ∀ {k : Nat} {d : Dentry}, t.dentries[k]? = some d →
      s.dentries[k]? = some d ∨ k = s.dentries.length ∧ d = ⟨some p, name, none⟩ := by
    intro k d hd
    rw [ht] at hd
    exact getElem?_snoc hd
  have hpos : ∀ {k : Nat} {d : Dentry} {n : Nat}, t.dentries[k]? = some d → d.d_inode = some n →
      s.dentries[k]? = some d := by
    intro k d n hd hn
    rcases hentry hd with hd | ⟨_, rfl⟩
    · exact hd
    · cases hn
  have hinode : ∀ {k : Nat} {j : Inode}, s.inode? k = some j → t.inode? k = some j := by
    intro k j hj
    obtain ⟨d, n, hd, hn, hj⟩ := inode?_eq_some.mp hj
    exact inode?_eq_some.mpr ⟨d, n, hold hd, hn, by rw [ht]; exact hj⟩
  rw [← ht]
  constructor
  case links =>
    intro k j hj
    obtain ⟨d, n, hd, hn, hj⟩ := inode?_eq_some.mp hj
    rw [ht] at hj ⊢
    rw [subdirs_negative]
    exact h.links k j (inode?_eq_some.mpr ⟨d, n, hpos hd hn, hn, hj⟩)
  case names =>
    intro k k' d d' hd hd' hpar hname
    rcases hentry hd with hd | ⟨hk, rfl⟩ <;> rcases hentry hd' with hd' | ⟨hk', rfl⟩
    · exact h.names k k' d d' hd hd' hpar hname
    · exact absurd hname (hnew d (List.mem_of_getElem? hd) hpar)
    · exact absurd hname.symm (hnew d' (List.mem_of_getElem? hd') hpar.symm)
    · exact hk.trans hk'.symm
  case valid =>
    intro k d n hd hn
    rw [ht]
    exact h.valid k d n (hpos hd hn) hn
  case single =>
    intro k k' d d' n hd hd' hn hn'
    exact h.single k k' d d' n (hpos hd hn) (hpos hd' hn') hn hn'
  case parents =>
    intro k d q hd hq
    rcases hentry hd with hd | ⟨_, rfl⟩
    · obtain ⟨j, hj⟩ := h.parents k d q hd hq
      exact ⟨j, hinode hj⟩
    · cases hq
      exact ⟨i, hinode hp⟩
  case root =>
    obtain ⟨j, hj, hdir⟩ := h.root
    exact ⟨j, hinode hj, hdir⟩

theorem SameTree.refl (s : State) : SameTree s s := ⟨rfl, fun _ _ ↦ Iff.rfl⟩

/-- `lookup_one_len` has a dentry of that name in that parent, and keeps the tree. -/
theorem lookup_spec (name : String) (h : Inv s) (hp : s.inode? p = some i) :
    ∃ (k : Nat) (d : Dentry) (t : State), lookup_one_len s name p = (k, t) ∧ Inv t ∧ SameTree s t ∧
      t.dentries[k]? = some d ∧ d.d_parent = some p ∧ d.d_name = name ∧
      ∀ (j : Nat) (e : Dentry), s.dentries[j]? = some e → t.dentries[j]? = some e := by
  by_cases hc : ∃ d ∈ s.dentries, d.d_parent = some p ∧ d.d_name = name
  · obtain ⟨d, hd, hpar, hname⟩ := hc
    obtain ⟨k, hk⟩ := List.mem_iff_getElem?.mp hd
    exact ⟨k, d, s, lookup_cached h hk hpar hname, h, SameTree.refl s, hk, hpar, hname,
      fun _ _ he ↦ he⟩
  · have hnew : ∀ d ∈ s.dentries, d.d_parent = some p → d.d_name ≠ name :=
      fun d hd hpar hname ↦ hc ⟨d, hd, hpar, hname⟩
    refine ⟨_, ⟨some p, name, none⟩, _, lookup_uncached hnew, h.add_negative hnew hp, ⟨rfl, ?_⟩,
      List.getElem?_concat_length, rfl, rfl, ?_⟩
    · intro d hpos
      show d ∈ s.dentries ++ [_] ↔ _
      rw [List.mem_append, List.mem_singleton]
      exact or_iff_left fun heq ↦ hpos (by rw [heq])
    · intro j e he
      show (s.dentries ++ _)[j]? = _
      rw [List.getElem?_append_left (List.getElem?_eq_some_iff.mp he).1]
      exact he

end Lookup

section Create

variable {s t : State} {p dir k n : Nat} {isdir : Prop} [Decidable isdir] {d dp : Dentry}

/-- What an added inode leaves of the others. -/
theorem Added.dentry (h : Added s t p dir k isdir n) {j : Nat} (hne : j ≠ k) :
    t.dentries[j]? = s.dentries[j]? := by
  obtain ⟨d, _, _, _, ht⟩ := h.dentries
  rw [ht, List.getElem?_set_ne (Ne.symm hne)]

theorem Added.is_dir (h : Added s t p dir k isdir n) (hinv : Inv s) {j : Nat} {e : Dentry}
    (he : s.dentries[j]? = some e) : t.is_dir e = s.is_dir e := by
  unfold State.is_dir
  cases hn : e.d_inode with
  | none => rfl
  | some i =>
    have hlt := hinv.valid j e i he hn
    show (t.inodes[i]?).any _ = (s.inodes[i]?).any _
    by_cases hdir : i = dir
    · obtain ⟨a, b, ha, hb, hmode, _⟩ := h.parent
      rw [hdir, ha, hb]
      show decide (S_ISDIR b.i_mode) = decide (S_ISDIR a.i_mode)
      rw [hmode]
    · rw [h.other i hlt hdir]

/-- One more subdirectory for the parent if the new inode is a directory. -/
theorem Added.subdirs (h : Added s t p dir k isdir n) (hinv : Inv s) (j : Nat) :
    t.subdirs j = s.subdirs j + if j = p ∧ isdir then 1 else 0 := by
  obtain ⟨d, hd, hneg, hpar, ht⟩ := h.dentries
  obtain ⟨hk, hget⟩ := List.getElem?_eq_some_iff.mp hd
  have hsame : ∀ e ∈ s.dentries, (decide (e.d_parent = some j) && t.is_dir e) =
      (decide (e.d_parent = some j) && s.is_dir e) := by
    intro e he
    obtain ⟨m, hm⟩ := List.mem_iff_getElem?.mp he
    rw [h.is_dir hinv hm]
  have hcount : s.dentries.countP (fun e ↦ decide (e.d_parent = some j) && t.is_dir e) = s.subdirs j :=
    List.countP_congr fun e he ↦ by rw [hsame e he]
  have hold : t.is_dir s.dentries[k] = false := by
    rw [hget]
    unfold State.is_dir
    rw [hneg]
    rfl
  have hnew : t.is_dir { d with d_inode := some s.inodes.length } = decide isdir := by
    obtain ⟨i, hi, htype, _⟩ := h.new
    show (t.inodes[s.inodes.length]?).any _ = _
    rw [hi]
    exact decide_eq_decide.mpr htype
  show t.dentries.countP _ = _
  rw [ht, List.countP_set hk, hcount, hold, hnew, Bool.and_false]
  show s.subdirs j - 0 + (if (decide (d.d_parent = some j) && decide isdir) = true then 1 else 0) = _
  rw [hpar, Nat.sub_zero]
  have hiff : (decide (some p = some j) && decide isdir) = true ↔ j = p ∧ isdir := by
    rw [Bool.and_eq_true, decide_eq_true_iff, decide_eq_true_iff, Option.some_inj, eq_comm]
  exact congrArg _ (if_congr hiff rfl rfl)

-- The dentry that gets the inode named none.
theorem Added.negative (h : Added s t p dir k isdir n) : s.inode? k = none := by
  obtain ⟨d, hd, hneg, _⟩ := h.dentries
  unfold State.inode?
  rw [hd, Option.bind_some, hneg]
  rfl

/-- A dentry has the parent and the name that it had, and another inode only if it is `k`. -/
theorem Added.entry (h : Added s t p dir k isdir n) {m : Nat} {e : Dentry}
    (he : t.dentries[m]? = some e) : ∃ e₀ : Dentry, s.dentries[m]? = some e₀ ∧
      e.d_parent = e₀.d_parent ∧ e.d_name = e₀.d_name ∧ (m ≠ k → e = e₀) ∧
      (m = k → e.d_inode = some s.inodes.length) := by
  by_cases hmk : m = k
  · obtain ⟨d, hd, _, _, ht⟩ := h.dentries
    rw [hmk, ht, List.getElem?_set_self (List.getElem?_eq_some_iff.mp hd).1] at he
    cases he
    rw [hmk]
    exact ⟨d, hd, rfl, rfl, fun hne ↦ absurd rfl hne, fun _ ↦ rfl⟩
  · rw [h.dentry hmk] at he
    exact ⟨e, he, rfl, rfl, fun _ ↦ rfl, fun heq ↦ absurd heq hmk⟩

/-- What a dentry named is still there, with its type. -/
theorem Added.inode? (h : Added s t p dir k isdir n) (hinv : Inv s) {m : Nat} {q : Inode}
    (hq : s.inode? m = some q) : ∃ q', t.inode? m = some q' ∧ q'.i_mode = q.i_mode := by
  have hmk : m ≠ k := by
    intro heq
    rw [heq, h.negative] at hq
    cases hq
  obtain ⟨e, r, he, hr, hq⟩ := inode?_eq_some.mp hq
  have he' := (h.dentry hmk).trans he
  by_cases hrd : r = dir
  · obtain ⟨i, j, hi, hj, hmode, _⟩ := h.parent
    rw [hrd, hi] at hq
    cases hq
    exact ⟨j, inode?_eq_some.mpr ⟨e, r, he', hr, by rw [hrd]; exact hj⟩, hmode⟩
  · have hq' := (h.other r (hinv.valid m e r he hr) hrd).trans hq
    exact ⟨q, inode?_eq_some.mpr ⟨e, r, he', hr, hq'⟩, rfl⟩

-- The new inode has no entries yet.
theorem Added.links_new (h : Added s t p dir k isdir n) (hinv : Inv s) (hpk : p ≠ k) {i : Inode}
    (hi : t.inodes[s.inodes.length]? = some i) :
    i.i_nlink = if S_ISDIR i.i_mode then 2 + t.subdirs k else 1 := by
  obtain ⟨new, hnew, htype, hlink⟩ := h.new
  rw [hnew] at hi
  cases hi
  have hzero : s.subdirs k = 0 := by
    apply List.countP_eq_zero.mpr
    intro e he htrue
    obtain ⟨b, hb⟩ := List.mem_iff_getElem?.mp he
    rw [Bool.and_eq_true, decide_eq_true_iff] at htrue
    obtain ⟨a, ha⟩ := hinv.parents b e k hb htrue.1
    rw [h.negative] at ha
    cases ha
  have hcount : t.subdirs k = 0 := by
    rw [h.subdirs hinv, hzero, if_neg fun hboth ↦ hpk hboth.1.symm]
  rw [hlink, hcount]
  exact if_congr htype.symm rfl rfl

/-- The link counts agree with the tree when the parent, a directory, gets its link. -/
theorem Added.links (h : Added s t p dir k isdir (if isdir then 1 else 0)) (hinv : Inv s)
    (hdp : s.dentries[p]? = some dp) (hdpi : dp.d_inode = some dir)
    (hisdir : ∀ i, s.inodes[dir]? = some i → S_ISDIR i.i_mode) {m : Nat} {q : Inode}
    (hq : t.inode? m = some q) : q.i_nlink = if S_ISDIR q.i_mode then 2 + t.subdirs m else 1 := by
  obtain ⟨i, j, hi, hj, hmode, hlink⟩ := h.parent
  have hpi := inode?_eq_some.mpr ⟨dp, dir, hdp, hdpi, hi⟩
  have hpk : p ≠ k := by
    intro heq
    rw [heq, h.negative] at hpi
    cases hpi
  obtain ⟨e, r, he, hr, hq⟩ := inode?_eq_some.mp hq
  obtain ⟨e₀, he₀, _, _, hold, hkey⟩ := h.entry he
  by_cases hmk : m = k
  · rw [hkey hmk] at hr
    cases hr
    rw [hmk]
    exact h.links_new hinv hpk hq
  · rw [hold hmk] at hr
    by_cases hmp : m = p
    · rw [hmp, hdp] at he₀
      cases he₀
      rw [hdpi] at hr
      cases hr
      rw [hj] at hq
      cases hq
      have hbefore := hinv.links p i hpi
      rw [if_pos (hisdir i hi)] at hbefore
      have hcount : t.subdirs p = s.subdirs p + if isdir then 1 else 0 := by
        rw [h.subdirs hinv]
        exact congrArg _ (if_congr (and_iff_right rfl) rfl rfl)
      rw [hmode, if_pos (hisdir i hi), hlink, hbefore, hmp, hcount, Nat.add_assoc]
    · have hrd : r ≠ dir :=
        fun heq ↦ hmp (hinv.single m p e₀ dp dir he₀ hdp (hr.trans (congrArg some heq)) hdpi)
      rw [h.other r (hinv.valid m e₀ r he₀ hr) hrd] at hq
      have hcount : t.subdirs m = s.subdirs m := by
        rw [h.subdirs hinv, if_neg fun hboth ↦ hmp hboth.1, Nat.add_zero]
      rw [hcount]
      exact hinv.links m q (inode?_eq_some.mpr ⟨e₀, r, he₀, hr, hq⟩)

theorem Added.inv (h : Added s t p dir k isdir (if isdir then 1 else 0)) (hinv : Inv s)
    (hdp : s.dentries[p]? = some dp) (hdpi : dp.d_inode = some dir)
    (hisdir : ∀ i, s.inodes[dir]? = some i → S_ISDIR i.i_mode) : Inv t := by
  constructor
  case links => exact fun m q hq ↦ h.links hinv hdp hdpi hisdir hq
  case names =>
    intro m m' e e' he he' hpareq hname
    obtain ⟨f, hf, hfp, hfn, _⟩ := h.entry he
    obtain ⟨f', hf', hfp', hfn', _⟩ := h.entry he'
    apply hinv.names m m' f f' hf hf'
    · rw [← hfp, ← hfp']
      exact hpareq
    · rw [← hfn, ← hfn']
      exact hname
  case valid =>
    intro m e r he hr
    rw [h.length]
    obtain ⟨f, hf, _, _, hold, hkey⟩ := h.entry he
    by_cases hmk : m = k
    · rw [hkey hmk] at hr
      cases hr
      omega
    · rw [hold hmk] at hr
      have hlt := hinv.valid m f r hf hr
      omega
  case single =>
    intro m m' e e' r he he' hr hr'
    obtain ⟨f, hf, _, _, hold, hkey⟩ := h.entry he
    obtain ⟨f', hf', _, _, hold', hkey'⟩ := h.entry he'
    by_cases hmk : m = k <;> by_cases hmk' : m' = k
    · rw [hmk, hmk']
    · rw [hkey hmk] at hr
      rw [hold' hmk'] at hr'
      cases hr
      exact absurd (hinv.valid m' f' _ hf' hr') (Nat.lt_irrefl _)
    · rw [hkey' hmk'] at hr'
      rw [hold hmk] at hr
      cases hr'
      exact absurd (hinv.valid m f _ hf hr) (Nat.lt_irrefl _)
    · rw [hold hmk] at hr
      rw [hold' hmk'] at hr'
      exact hinv.single m m' f f' r hf hf' hr hr'
  case parents =>
    intro m e q he hq
    obtain ⟨f, hf, hfp, _⟩ := h.entry he
    obtain ⟨a, ha⟩ := hinv.parents m f q hf (hfp.symm.trans hq)
    obtain ⟨a', ha', _⟩ := h.inode? hinv ha
    exact ⟨a', ha'⟩
  case root =>
    obtain ⟨a, ha, hdir⟩ := hinv.root
    obtain ⟨a', ha', hm⟩ := h.inode? hinv ha
    rw [← hm] at hdir
    exact ⟨a', ha', hdir⟩

end Create

section Calls

variable {s : State} {p dir k : Nat} {d : Dentry} {i : Inode} {name : String} {mode : Mode}
  {parent data fops : Option Nat} {env : Env}

theorem make_fails {e : Int} (h : ∀ mode, aufs_mknod s dir k mode env = some (e, s)) (he : e ≠ 0) :
    (if mode &&& S_IFMT = S_IFDIR then aufs_mkdir s dir k mode env else aufs_create s dir k mode env) =
      some (e, s) := by
  by_cases hdir : mode &&& S_IFMT = S_IFDIR
  · rw [if_pos hdir]
    unfold aufs_mkdir
    rw [h]
    exact if_neg he
  · rw [if_neg hdir]
    exact h (mode ||| S_IFREG)

theorem make_adds (mode : Mode) (hd : s.dentries[k]? = some d) (hneg : d.d_inode = none) (hp : d.d_parent = some p)
    (hdir : dir < s.inodes.length) (hyes : env.new_inode = true) :
    ∃ t, (if mode &&& S_IFMT = S_IFDIR then aufs_mkdir s dir k mode env
        else aufs_create s dir k mode env) = some (0, t) ∧
      Added s t p dir k (mode &&& S_IFMT = S_IFDIR) (if mode &&& S_IFMT = S_IFDIR then 1 else 0) := by
  by_cases hmode : mode &&& S_IFMT = S_IFDIR
  · obtain ⟨t, ht, hadd⟩ := aufs_mknod_adds (mode ||| S_IFDIR) hd hneg hp hdir hyes
    have hiff : S_ISDIR (mode ||| S_IFDIR) ↔ mode &&& S_IFMT = S_IFDIR :=
      iff_of_true (isdir_mkdir hmode) hmode
    rw [if_pos hmode, if_pos hmode]
    refine ⟨_, ?_, (hadd.congr hiff).count hdir⟩
    unfold aufs_mkdir
    rw [ht]
    rfl
  · obtain ⟨t, ht, hadd⟩ := aufs_mknod_adds (mode ||| S_IFREG) hd hneg hp hdir hyes
    have hiff : S_ISDIR (mode ||| S_IFREG) ↔ mode &&& S_IFMT = S_IFDIR :=
      iff_of_false not_isdir_create hmode
    rw [if_neg hmode, if_neg hmode]
    exact ⟨t, ht, hadd.congr hiff⟩

theorem aufs_create_by_name_eq {dp : Dentry} {t : State} (hdp : s.dentries[p]? = some dp)
    (hdpi : dp.d_inode = some dir) (hlookup : lookup_one_len s name p = (k, t))
    (hparent : (if parent = none ∧ s.aufs_mount then some 0 else parent) = some p) :
    aufs_create_by_name s name mode parent env =
      (if mode &&& S_IFMT = S_IFDIR then aufs_mkdir t dir k mode env
        else aufs_create t dir k mode env).bind fun r ↦ some (r.1, some k, r.2) := by
  unfold aufs_create_by_name
  rw [hparent]
  show (s.dentries[p]?).bind _ = _
  rw [hdp, Option.bind_some, hdpi]
  show Option.bind (some dir) _ = _
  rw [Option.bind_some, hlookup]
  by_cases hmode : mode &&& S_IFMT = S_IFDIR
  · simp only [if_pos hmode]
    rfl
  · simp only [if_neg hmode]
    rfl

-- A name with a negative dentry is not taken.
theorem Inv.not_taken {t : State} (h : Inv t)
    (hold : ∀ (j : Nat) (e : Dentry), s.dentries[j]? = some e → t.dentries[j]? = some e)
    (hd : t.dentries[k]? = some d) (hneg : d.d_inode = none) (hpar : d.d_parent = some p)
    (hname : d.d_name = name) :
    ¬∃ e ∈ s.dentries, e.d_inode ≠ none ∧ e.d_parent = some p ∧ e.d_name = name := by
  rintro ⟨e, he, hpos, hep, hen⟩
  obtain ⟨j, hj⟩ := List.mem_iff_getElem?.mp he
  have hed := hold j e hj
  have hjk := h.names j k e d hed hd (hep.trans hpar.symm) (hen.trans hname.symm)
  rw [hjk, hd] at hed
  cases hed
  exact hpos hneg

/-- One call: the invariant is kept, a name that is taken gives null, and null means that the tree is
the same. -/
theorem aufs_create_file_spec (h : Inv s) (hp : s.inode? p = some i) (hdir : S_ISDIR i.i_mode)
    (hparent : (if parent = none ∧ s.aufs_mount then some 0 else parent) = some p) :
    ∃ ret t, aufs_create_file s name mode parent data fops env = some (ret, t) ∧ Inv t ∧
      ((∃ e ∈ s.dentries, e.d_inode ≠ none ∧ e.d_parent = some p ∧ e.d_name = name) → ret = none) ∧
      (ret = none → SameTree s t) := by
  obtain ⟨dp, dir, hdp, hdpi, hi⟩ := inode?_eq_some.mp hp
  obtain ⟨k, d, s', hlookup, hinv, hsame, hd, hpar, hname, hold⟩ := lookup_spec name h hp
  have hfail : ∀ {e : Int}, e ≠ 0 → (∀ mode, aufs_mknod s' dir k mode env = some (e, s')) →
      aufs_create_file s name mode parent data fops env = some (none, s') := by
    intro e he hall
    unfold aufs_create_file
    rw [aufs_create_by_name_eq hdp hdpi hlookup hparent, make_fails hall he]
    exact if_pos he
  by_cases htaken : d.d_inode = none
  · by_cases hyes : env.new_inode = true
    · have hlt : dir < s'.inodes.length := by
        rw [hsame.1]
        exact h.valid p dp dir hdp hdpi
      obtain ⟨t, ht, hadd⟩ := make_adds mode hd htaken hpar hlt hyes
      have hkey : t.dentries[k]? = some { d with d_inode := some s'.inodes.length } := by
        obtain ⟨e, he, _, _, hte⟩ := hadd.dentries
        rw [hd] at he
        cases he
        rw [hte, List.getElem?_set_self (List.getElem?_eq_some_iff.mp hd).1]
      have hisdir : ∀ j, s'.inodes[dir]? = some j → S_ISDIR j.i_mode := by
        intro j hj
        rw [hsame.1, hi] at hj
        cases hj
        exact hdir
      have hmod := hadd.modify_new hlt (f := fun i ↦ { i with
        generic_ip := if data = none then i.generic_ip else data
        i_fop := (fops.map Fops.given).getD i.i_fop }) (fun _ ↦ Iff.rfl) (fun _ ↦ rfl)
      refine ⟨some k, _, ?_, hmod.inv hinv (hold p dp hdp) hdpi hisdir,
        fun hex ↦ absurd hex (hinv.not_taken hold hd htaken hpar hname), nofun⟩
      unfold aufs_create_file
      rw [aufs_create_by_name_eq hdp hdpi hlookup hparent, ht]
      show (t.dentries[k]?).bind _ = _
      rw [hkey]
      rfl
    · have hno : env.new_inode = false := Bool.eq_false_iff.mpr hyes
      exact ⟨none, s', hfail (by decide) fun _ ↦ aufs_mknod_fails hd htaken hno, hinv, fun _ ↦ rfl,
        fun _ ↦ hsame⟩
  · exact ⟨none, s', hfail (by decide) fun _ ↦ aufs_mknod_taken hd htaken, hinv, fun _ ↦ rfl,
      fun _ ↦ hsame⟩

theorem aufs_create_file_no_parent (h : (if parent = none ∧ s.aufs_mount then some 0 else parent) = none) :
    aufs_create_file s name mode parent data fops env = some (none, s) := by
  unfold aufs_create_file aufs_create_by_name
  rw [h]
  rfl

theorem exec_spec {c : Call} (env : Env) (h : Inv s) (hadm : c.Admissible s) :
    ∃ ret t, exec s c env = some (ret, t) ∧ Inv t ∧ (c.Taken s → ret = none) ∧
      (ret = none → SameTree s t) := by
  cases hdir : c.dir s with
  | none =>
    -- No parent: `aufs_mount` is not set.
    refine ⟨none, s, ?_, h, fun _ ↦ rfl, fun _ ↦ SameTree.refl s⟩
    cases c with
    | create_file name mode parent data fops => exact aufs_create_file_no_parent hdir
    | create_dir name parent => exact aufs_create_file_no_parent hdir
  | some p =>
    have hp : ∃ i, s.inode? p = some i ∧ S_ISDIR i.i_mode := by
      unfold Call.dir at hdir
      by_cases hroot : c.parent = none ∧ s.aufs_mount
      · rw [if_pos hroot] at hdir
        cases hdir
        exact h.root
      · rw [if_neg hroot] at hdir
        exact hadm p hdir
    obtain ⟨i, hi, hisdir⟩ := hp
    unfold Call.Taken
    rw [hdir]
    cases c with
    | create_file name mode parent data fops => exact aufs_create_file_spec h hi hisdir hdir
    | create_dir name parent => exact aufs_create_file_spec h hi hisdir hdir

end Calls

section Runs

variable {root : Inode} {mount : Bool} {s t : State} {es : List Event} {e : Event}

theorem inv_root_only (hdir : S_ISDIR root.i_mode) (hlink : root.i_nlink = 2) :
    Inv (root_only root mount) := by
  have hentry : ∀ {k : Nat} {d : Dentry}, (root_only root mount).dentries[k]? = some d →
      k = 0 ∧ d = ⟨none, "/", some 0⟩ := by
    intro k d hd
    rcases getElem?_snoc (l := []) hd with hd | hd
    · cases hd
    · exact hd
  constructor
  case links =>
    intro k i hi
    obtain ⟨d, n, hd, hn, hi⟩ := inode?_eq_some.mp hi
    obtain ⟨_, rfl⟩ := hentry hd
    cases hn
    cases hi
    rw [if_pos hdir, hlink]
    rfl
  case names =>
    intro k k' d d' hd hd' _ _
    rw [(hentry hd).1, (hentry hd').1]
  case valid =>
    intro k d i hd hi
    obtain ⟨_, rfl⟩ := hentry hd
    cases hi
    exact Nat.zero_lt_one
  case single =>
    intro k k' d d' _ hd hd' _ _
    rw [(hentry hd).1, (hentry hd').1]
  case parents =>
    intro k d p hd hp
    obtain ⟨_, rfl⟩ := hentry hd
    cases hp
  case root => exact ⟨root, rfl, hdir⟩

theorem Step.inv (hstep : Step s e t) (h : Inv s) : Inv t := by
  obtain ⟨ret, t', hexec, hinv, _⟩ := exec_spec e.env h hstep.1
  rw [hstep.2] at hexec
  cases hexec
  exact hinv

theorem Inv.wellFormed (h : Inv s) : WellFormed s where
  links := h.links
  names := fun k k' d d' hd hd' _ _ ↦ h.names k k' d d' hd hd'

/-- After every sequence of calls the tree is well formed, and the next call, whatever it finds, returns
null for a name that is taken and leaves the tree as it is when it returns null. -/
theorem aufs_tree (hdir : S_ISDIR root.i_mode) (hlink : root.i_nlink = 2)
    (hrun : Run Step (root_only root mount) es s) :
    WellFormed s ∧ ∀ (c : Call) (env : Env), c.Admissible s →
      ∃ ret t, exec s c env = some (ret, t) ∧ (c.Taken s → ret = none) ∧ (ret = none → SameTree s t) := by
  have hinv : Inv s := hrun.state_invariant Inv (inv_root_only hdir hlink) fun _ _ _ h hstep ↦ hstep.inv h
  refine ⟨hinv.wellFormed, fun c env hadm ↦ ?_⟩
  obtain ⟨ret, t, hexec, _, htaken, hsame⟩ := exec_spec env hinv hadm
  exact ⟨ret, t, hexec, htaken, hsame⟩

-- A directory, a file in it, and its name once more.
theorem aufs_tree_three_calls :
    ∃ s : State, s.inode? 0 = some ⟨0x41ed, 0, 0, 3, .simple_dir_operations, none⟩ ∧ WellFormed s ∧
      ∃ t, exec s (.create_file "lbb" 0x8124 (some 1) none none) ⟨true, 0, 0⟩ = some (none, t) ∧
        SameTree s t := by
  have hdir : exec (root_only ⟨0x41ed, 0, 0, 2, .simple_dir_operations, none⟩ true)
      (.create_dir "woman star" none) ⟨true, 0, 0⟩ = some (some 1,
        ⟨[⟨0x41ed, 0, 0, 3, .simple_dir_operations, none⟩, ⟨0x41ed, 0, 0, 2, .simple_dir_operations, none⟩],
          [⟨none, "/", some 0⟩, ⟨some 0, "woman star", some 1⟩], true⟩) := rfl
  have hfile : exec
      ⟨[⟨0x41ed, 0, 0, 3, .simple_dir_operations, none⟩, ⟨0x41ed, 0, 0, 2, .simple_dir_operations, none⟩],
        [⟨none, "/", some 0⟩, ⟨some 0, "woman star", some 1⟩], true⟩
      (.create_file "lbb" 0x8124 (some 1) none none) ⟨true, 0, 0⟩ = some (some 2,
        ⟨[⟨0x41ed, 0, 0, 3, .simple_dir_operations, none⟩, ⟨0x41ed, 0, 0, 2, .simple_dir_operations, none⟩,
          ⟨0x8124, 0, 0, 1, .aufs_file_operations, none⟩],
          [⟨none, "/", some 0⟩, ⟨some 0, "woman star", some 1⟩, ⟨some 1, "lbb", some 2⟩], true⟩) := rfl
  have hparent : ∀ s, s.inode? 1 = some ⟨0x41ed, 0, 0, 2, .simple_dir_operations, none⟩ →
      Call.Admissible s (.create_file "lbb" 0x8124 (some 1) none none) := by
    intro s hs p hp
    cases hp
    exact ⟨_, hs, by decide⟩
  have hnull : ∀ s, Call.Admissible s (.create_dir "woman star" none) := by
    intro s p hp
    cases hp
  have hrun := ((@Run.nil _ _ Step _).snoc (e := ⟨_, _, _⟩) ⟨hnull _, hdir⟩).snoc
    (e := ⟨_, _, _⟩) ⟨hparent _ rfl, hfile⟩
  obtain ⟨hwell, hcalls⟩ := aufs_tree (by decide) rfl hrun
  obtain ⟨ret, t, hexec, htaken, hsame⟩ := hcalls (.create_file "lbb" 0x8124 (some 1) none none) ⟨true, 0, 0⟩
    (hparent _ rfl)
  have hret : ret = none := htaken ⟨⟨some 1, "lbb", some 2⟩, by decide, by decide, rfl, rfl⟩
  rw [hret] at hexec
  exact ⟨_, rfl, hwell, t, hexec, hsame hret⟩

end Runs

end OK210Drivers.Aufs
