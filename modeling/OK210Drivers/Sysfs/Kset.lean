import OK210Drivers.Library.Runs
import OK210Drivers.Sysfs.Store

/-!
# The objects of lab51

Three objects with three files each, in a kset.  The files are variables of their own.  A module whose
`example_init` has failed behind `kset_create_and_add` leaves the kset registered, and is never loaded again.
-/

open Library OK210Drivers.Ingbenfs

namespace OK210Drivers.Sysfs.Kset

def ENOMEM : Int := 12
def EINVAL : Int := 22

/-- The names of the objects, and of the files of each. -/
inductive Name
  | foo
  | bar
  | baz
  deriving DecidableEq

structure FooObj where
  foo : BitVec 32
  baz : BitVec 32
  bar : BitVec 32

/-- The kset is in sysfs, the `struct foo_obj` that are allocated, and the objects that are in the kset. -/
structure Sys where
  kset : Bool
  allocated : Int
  objs : Name → Option FooObj

/-- What `example_init` meets: whether there is a kset, and for each object whether there is memory and
whether it can be added. -/
structure Met where
  kset_create_and_add : Bool
  kzalloc : Name → Bool
  kobject_init_and_add : Name → Bool

def foo_release (s : Sys) : Sys := { s with allocated := s.allocated - 1 }

-- `kobject_put` of the last reference.
def destroy_foo_obj (name : Name) (s : Sys) : Sys :=
  foo_release { s with objs := Function.update s.objs name none }

/-- False is a null pointer. -/
def create_foo_obj (m : Met) (name : Name) (s : Sys) : Bool × Sys :=
  if m.kzalloc name = false then (false, s)
  else
    let foo := { s with allocated := s.allocated + 1 }
    if m.kobject_init_and_add name = false ∨ (s.objs name).isSome = true then (false, foo_release foo)
    else (true, { foo with objs := Function.update s.objs name (some ⟨0, 0, 0⟩) })

def example_init (m : Met) (s : Sys) : Int × Sys :=
  if m.kset_create_and_add = false ∨ s.kset = true then (- ENOMEM, s)
  else
    let s := { s with kset := true }
    let foo := create_foo_obj m .foo s
    if foo.1 = false then (- EINVAL, foo.2)
    else
      let bar := create_foo_obj m .bar foo.2
      if bar.1 = false then (- EINVAL, destroy_foo_obj .foo bar.2)
      else
        let baz := create_foo_obj m .baz bar.2
        if baz.1 = false then (- EINVAL, destroy_foo_obj .foo (destroy_foo_obj .bar baz.2))
        else (0, baz.2)

def example_exit (s : Sys) : Sys :=
  let s := destroy_foo_obj .foo (destroy_foo_obj .bar (destroy_foo_obj .baz s))
  { s with kset := false }

def foo_show (obj : FooObj) : List UInt8 := format_d obj.foo

def b_show (obj : FooObj) (name : Name) : List UInt8 :=
  let var := if name = .baz then obj.baz else obj.bar
  format_d var

def foo_store (obj : FooObj) (buf : List UInt8) : FooObj :=
  match sscanf_d buf with
  | some v => { obj with foo := v }
  | none => obj

-- `stack` is what `var` holds when the text is no number.
def b_store (obj : FooObj) (name : Name) (buf : List UInt8) (stack : BitVec 32) : FooObj :=
  let var := (sscanf_d buf).getD stack
  if name = .baz then { obj with baz := var } else { obj with bar := var }

def foo_attr_show (obj : FooObj) : Name → List UInt8
  | .foo => foo_show obj
  | .bar => b_show obj .bar
  | .baz => b_show obj .baz

def foo_attr_store (obj : FooObj) (buf : List UInt8) (stack : BitVec 32) : Name → FooObj
  | .foo => foo_store obj buf
  | .bar => b_store obj .bar buf stack
  | .baz => b_store obj .baz buf stack

inductive Event
  | init (m : Met) (ret : Int)
  | exit
  | read (obj attr : Name) (text : List UInt8)
  | write (obj attr : Name) (buf : List UInt8) (stack : BitVec 32)

/-- The module and its users. -/
structure Module where
  sys : Sys
  loaded : Bool

def Module.start : Module := ⟨⟨false, 0, fun _ ↦ none⟩, false⟩

inductive Step : Module → Event → Module → Prop
  | init {s s' : Sys} {ret : Int} (m : Met) (h : example_init m s = (ret, s')) :
      Step ⟨s, false⟩ (.init m ret) ⟨s', decide (ret = 0)⟩
  | exit {s : Sys} : Step ⟨s, true⟩ .exit ⟨example_exit s, false⟩
  | read {w : Module} {o : FooObj} (obj attr : Name) (h : w.sys.objs obj = some o) :
      Step w (.read obj attr (foo_attr_show o attr)) w
  | write {w : Module} {o : FooObj} (obj attr : Name) (buf : List UInt8) (stack : BitVec 32)
      (h : w.sys.objs obj = some o) : Step w (.write obj attr buf stack)
        { w with sys := { w.sys with
          objs := Function.update w.sys.objs obj (some (foo_attr_store o buf stack attr)) } }

/-! ## Loads and unloads -/

/-- Every object is there. -/
def Met.Objects (m : Met) : Prop := ∀ name, m.kzalloc name = true ∧ m.kobject_init_and_add name = true

/-- A load that succeeds when the kset is not there already. -/
def Able : Event → Prop
  | .init m _ => m.kset_create_and_add = true ∧ m.Objects
  | _ => False

/-- A load that fails behind `kset_create_and_add`. -/
def Spoils : Event → Prop
  | .init m _ => m.kset_create_and_add = true ∧ ¬m.Objects
  | _ => False

def Event.succeeded : Event → Bool
  | .init _ ret => decide (ret = 0)
  | _ => false

/-! ## The files -/

def FooObj.value (o : FooObj) : Name → BitVec 32
  | .foo => o.foo
  | .bar => o.bar
  | .baz => o.baz

/-- What an event puts into a file. -/
def put (obj attr : Name) : Event → Option (BitVec 32)
  | .init _ ret => if ret = 0 then some 0 else none
  | .write obj' attr' buf stack =>
    if obj' = obj ∧ attr' = attr then
      match sscanf_d buf with
      | some v => some v
      | none => if attr = .foo then none else some stack
    else none
  | _ => none

/-- A read shows the number that was put into its file last. -/
def Shows (pre : List Event) : Event → Prop
  | .read obj attr text => ∃ v, lastSome (put obj attr) pre = some v ∧ text = format_d v
  | _ => True

section Init

variable {m : Met} {s s' : Sys} {ret : Int} {name : Name}

/-- An object and its memory are there. -/
def Met.object (m : Met) (name : Name) : Prop := m.kzalloc name = true ∧ m.kobject_init_and_add name = true

theorem create_foo_obj_object (h : m.object name) (hfree : s.objs name = none) :
    create_foo_obj m name s = (true, { s with
      allocated := s.allocated + 1, objs := Function.update s.objs name (some ⟨0, 0, 0⟩) }) := by
  unfold create_foo_obj
  rw [if_neg (by simp [h.1])]
  dsimp only
  rw [if_neg (by simp [h.2, hfree])]

theorem create_foo_obj_null (h : ¬m.object name) : create_foo_obj m name s = (false, s) := by
  unfold create_foo_obj
  split
  · rfl
  next hmem =>
    have hno : m.kobject_init_and_add name = false := by
      by_contra hadd
      exact h ⟨by simpa using hmem, by simpa using hadd⟩
    dsimp only
    rw [if_pos (Or.inl hno)]
    unfold foo_release
    simp

/-- The kset without objects, and with three new ones. -/
def Sys.noObjects (kset : Bool) : Sys := ⟨kset, 0, fun _ ↦ none⟩

def Sys.newObjects : Sys := ⟨true, 3, fun _ ↦ some ⟨0, 0, 0⟩⟩

theorem example_init_fails (h : ¬(m.kset_create_and_add = true ∧ s.kset = false)) :
    example_init m s = (- ENOMEM, s) := by
  unfold example_init
  rw [if_pos]
  by_contra hno
  rw [not_or] at hno
  exact h ⟨by simpa using hno.1, by simpa using hno.2⟩

theorem example_init_objects (hk : m.kset_create_and_add = true) (h : m.Objects) :
    example_init m (.noObjects false) = (0, .newObjects) := by
  have hobj : ∀ name, m.object name := h
  unfold example_init
  rw [if_neg (by simp [hk, Sys.noObjects])]
  dsimp only
  rw [create_foo_obj_object (hobj .foo) rfl]
  dsimp only
  rw [if_neg (by decide), create_foo_obj_object (hobj .bar) rfl]
  dsimp only
  rw [if_neg (by decide), create_foo_obj_object (hobj .baz) rfl]
  dsimp only
  rw [if_neg (by decide)]
  unfold Sys.noObjects Sys.newObjects
  congr 2
  funext name
  cases name <;> rfl

theorem example_init_undone (hk : m.kset_create_and_add = true) (h : ¬m.Objects) :
    example_init m (.noObjects false) = (- EINVAL, .noObjects true) := by
  unfold example_init
  rw [if_neg (by simp [hk, Sys.noObjects])]
  dsimp only
  by_cases hfoo : m.object .foo
  · rw [create_foo_obj_object hfoo rfl]
    dsimp only
    rw [if_neg (by decide)]
    by_cases hbar : m.object .bar
    · have hbaz : ¬m.object .baz := by
        intro hbaz
        refine h fun name ↦ ?_
        cases name with
        | foo => exact hfoo
        | bar => exact hbar
        | baz => exact hbaz
      rw [create_foo_obj_object hbar rfl]
      dsimp only
      rw [if_neg (by decide), create_foo_obj_null hbaz]
      unfold destroy_foo_obj foo_release Sys.noObjects
      simp only [if_true]
      congr 2
      funext name
      cases name <;> rfl
    · rw [create_foo_obj_null hbar]
      unfold destroy_foo_obj foo_release Sys.noObjects
      simp only [if_true]
      congr 2
      funext name
      cases name <;> rfl
  · rw [create_foo_obj_null hfoo]
    rfl

end Init

section Runs

variable {es : List Event} {e : Event} {w w' : Module} {m : Met} {o : FooObj} {obj attr : Name}

/-- The objects hold what was put into their files last. -/
def Holds (es : List Event) (s : Sys) : Prop :=
  ∀ name, ∃ o, s.objs name = some o ∧ ∀ attr, lastSome (put name attr) es = some (o.value attr)

structure Inv (es : List Event) (w : Module) : Prop where
  unloaded : w.loaded = false → ∃ kset, w.sys = .noObjects kset ∧ (kset = true ↔ ∃ e ∈ es, Spoils e)
  loaded : w.loaded = true → w.sys.kset = true ∧ w.sys.allocated = 3 ∧ Holds es w.sys ∧ ∀ e ∈ es, ¬Spoils e
  inits : Always (fun pre e ↦ e.succeeded = true ↔ Able e ∧ ∀ f ∈ pre, ¬Spoils f) es
  shows : Always Shows es

theorem inv_start : Inv [] Module.start where
  unloaded := fun _ ↦ ⟨false, rfl, by simp⟩
  loaded := nofun
  inits := always_nil
  shows := always_nil

theorem spoils_snoc : (∃ f ∈ es ++ [e], Spoils f) ↔ (∃ f ∈ es, Spoils f) ∨ Spoils e := by
  simp only [List.mem_append, List.mem_singleton, or_and_right, exists_or, exists_eq_left]

theorem clean_snoc (h : ∀ f ∈ es, ¬Spoils f) (he : ¬Spoils e) : ∀ f ∈ es ++ [e], ¬Spoils f := by
  intro f hf
  rcases List.mem_append.mp hf with hf | hf
  · exact h f hf
  · rwa [List.mem_singleton.mp hf]

theorem foo_attr_show_eq : foo_attr_show o attr = format_d (o.value attr) := by
  cases attr <;> rfl

/-- A store changes its own file, if any. -/
theorem foo_attr_store_value (buf : List UInt8) (stack : BitVec 32) (attr' : Name) :
    some ((foo_attr_store o buf stack attr).value attr') =
      (put obj attr' (.write obj attr buf stack)).or (some (o.value attr')) := by
  unfold put
  cases hscan : sscanf_d buf with
  | none =>
    cases attr <;> cases attr' <;> simp [foo_attr_store, foo_store, b_store, FooObj.value, hscan]
  | some v =>
    cases attr <;> cases attr' <;> simp [foo_attr_store, foo_store, b_store, FooObj.value, hscan]

theorem Inv.init {s s' : Sys} {ret : Int} (hi : Inv es ⟨s, false⟩) (heq : example_init m s = (ret, s')) :
    Inv (es ++ [.init m ret]) ⟨s', decide (ret = 0)⟩ := by
  obtain ⟨kset, hs, hspoilt⟩ := hi.unloaded rfl
  change s = .noObjects kset at hs
  subst hs
  have hshows : Always Shows (es ++ [.init m ret]) := by
    rw [always_snoc]
    exact ⟨hi.shows, trivial⟩
  have hnone : kset = false ↔ ∀ f ∈ es, ¬Spoils f := by
    rw [← Bool.not_eq_true, hspoilt]
    push Not
    rfl
  by_cases hk : m.kset_create_and_add = true ∧ kset = false
  · by_cases hobj : m.Objects
    · obtain rfl := hk.2
      cases (example_init_objects hk.1 hobj).symm.trans heq
      have hclean := hnone.mp rfl
      refine ⟨nofun, fun _ ↦ ⟨rfl, rfl, fun name ↦ ⟨⟨0, 0, 0⟩, rfl, fun attr ↦ ?_⟩,
        clean_snoc hclean fun hsp ↦ hsp.2 hobj⟩, ?_, hshows⟩
      · rw [lastSome_snoc]
        cases attr <;> rfl
      · rw [always_snoc]
        exact ⟨hi.inits, ⟨fun _ ↦ ⟨⟨hk.1, hobj⟩, hclean⟩, fun _ ↦ rfl⟩⟩
    · obtain rfl := hk.2
      cases (example_init_undone hk.1 hobj).symm.trans heq
      refine ⟨fun _ ↦ ⟨true, rfl, ?_⟩, nofun, ?_, hshows⟩
      · rw [spoils_snoc]
        exact ⟨fun _ ↦ Or.inr ⟨hk.1, hobj⟩, fun _ ↦ rfl⟩
      · rw [always_snoc]
        exact ⟨hi.inits, nofun, fun hable ↦ absurd hable.1.2 hobj⟩
  · cases (example_init_fails hk).symm.trans heq
    refine ⟨fun _ ↦ ⟨kset, rfl, ?_⟩, nofun, ?_, hshows⟩
    · rw [spoils_snoc, ← hspoilt]
      refine ⟨Or.inl, fun hor ↦ hor.elim id fun hsp ↦ ?_⟩
      by_contra hno
      exact hk ⟨hsp.1, by simpa using hno⟩
    · rw [always_snoc]
      exact ⟨hi.inits, nofun, fun hable ↦ absurd ⟨hable.1.1, hnone.mpr hable.2⟩ hk⟩

theorem example_exit_newObjects {s : Sys} (hk : s.allocated = 3) : example_exit s = .noObjects false := by
  unfold example_exit destroy_foo_obj foo_release Sys.noObjects
  simp only [hk]
  congr 1
  funext name
  cases name <;> rfl

/-- The files are there only while the module is loaded. -/
theorem Inv.loaded_of_obj (hi : Inv es w) (hobj : w.sys.objs obj = some o) : w.loaded = true := by
  by_contra hno
  obtain ⟨kset, hs, -⟩ := hi.unloaded (by simpa using hno)
  rw [hs] at hobj
  cases hobj

theorem inv_step (hi : Inv es w) (hs : Step w e w') : Inv (es ++ [e]) w' := by
  cases hs with
  | init m heq => exact hi.init heq
  | @exit s =>
    obtain ⟨-, hthree, -, hclean⟩ := hi.loaded rfl
    refine ⟨fun _ ↦ ⟨false, example_exit_newObjects hthree, ?_⟩, nofun, ?_, ?_⟩
    · rw [spoils_snoc]
      refine ⟨nofun, fun hor ↦ hor.elim (fun ⟨f, hf, hsp⟩ ↦ absurd hsp (hclean f hf)) False.elim⟩
    · rw [always_snoc]
      exact ⟨hi.inits, nofun, fun hable ↦ hable.1.elim⟩
    · rw [always_snoc]
      exact ⟨hi.shows, trivial⟩
  | @read w o obj attr hobj =>
    have hl := hi.loaded_of_obj hobj
    obtain ⟨hkset, hthree, hholds, hclean⟩ := hi.loaded hl
    refine ⟨fun hno ↦ by simp [hl] at hno, fun _ ↦ ⟨hkset, hthree, ?_, clean_snoc hclean id⟩, ?_, ?_⟩
    · intro name
      obtain ⟨o', ho', hv⟩ := hholds name
      refine ⟨o', ho', fun attr' ↦ ?_⟩
      rw [lastSome_snoc]
      exact hv attr'
    · rw [always_snoc]
      exact ⟨hi.inits, nofun, fun hable ↦ hable.1.elim⟩
    · rw [always_snoc]
      obtain ⟨o', ho', hv⟩ := hholds obj
      obtain rfl : o = o' := Option.some.inj (hobj.symm.trans ho')
      exact ⟨hi.shows, o.value attr, hv attr, foo_attr_show_eq⟩
  | @write w o obj attr buf stack hobj =>
    have hl := hi.loaded_of_obj hobj
    obtain ⟨hkset, hthree, hholds, hclean⟩ := hi.loaded hl
    refine ⟨fun hno ↦ by simp [hl] at hno, fun _ ↦ ⟨hkset, hthree, ?_, clean_snoc hclean id⟩, ?_, ?_⟩
    · intro name
      obtain ⟨o', ho', hv⟩ := hholds name
      by_cases hname : name = obj
      · subst hname
        obtain rfl : o = o' := Option.some.inj (hobj.symm.trans ho')
        refine ⟨foo_attr_store o buf stack attr, Function.update_self .., fun attr' ↦ ?_⟩
        rw [lastSome_snoc, hv attr', foo_attr_store_value]
      · refine ⟨o', (Function.update_of_ne hname ..).trans ho', fun attr' ↦ ?_⟩
        have hnone : put name attr' (.write obj attr buf stack) = none :=
          if_neg fun h ↦ hname h.1.symm
        rw [lastSome_snoc, hnone, Option.none_or, hv]
    · rw [always_snoc]
      exact ⟨hi.inits, nofun, fun hable ↦ hable.1.elim⟩
    · rw [always_snoc]
      exact ⟨hi.shows, trivial⟩

theorem inv_of_run (hr : Run Step Module.start es w) : Inv es w :=
  hr.invariant Inv inv_start fun _ _ _ _ _ hi hs ↦ inv_step hi hs

/-- In any order of loads, unloads, reads and writes, what is read from a file is the number that was put into
it last: 0 by the load, or the number at the start of the text that was written, or for `baz` and `bar` what
was on the stack when the text does not start with one. -/
theorem reads_show_last_put (hr : Run Step Module.start es w) : Always Shows es := (inv_of_run hr).shows

/-- A number is written to one file and read from it and from another. -/
theorem reads_show_last_put_two_files :
    ∃ es w, Run Step Module.start es w ∧
      es.drop 2 = [.read .bar .baz (format_d 42), .read .foo .baz (format_d 0)] ∧ Always Shows es := by
  let m : Met := ⟨true, fun _ ↦ true, fun _ ↦ true⟩
  have h₁ : Run Step Module.start [.init m 0] ⟨.newObjects, true⟩ :=
    .snoc .nil (.init m (example_init_objects rfl fun _ ↦ ⟨rfl, rfl⟩))
  have h₂ := h₁.snoc (.write .bar .baz [52, 50, 10] 7 rfl)
  have h₃ := (h₂.snoc (.read .bar .baz rfl)).snoc (.read .foo .baz rfl)
  exact ⟨_, _, h₃, rfl, reads_show_last_put h₃⟩

/-- The module can be loaded until a load has failed behind `kset_create_and_add`; nothing is allocated while
it is not loaded, and the kset is there after such a load only. -/
theorem kset_loads_until_spoilt (hr : Run Step Module.start es w) :
    Always (fun pre e ↦ e.succeeded = true ↔ Able e ∧ ∀ f ∈ pre, ¬Spoils f) es ∧
      (w.loaded = false → ∃ kset, w.sys = .noObjects kset ∧ (kset = true ↔ ∃ e ∈ es, Spoils e)) :=
  ⟨(inv_of_run hr).inits, (inv_of_run hr).unloaded⟩

/-- There is no memory for the third object; afterwards there is, but the kset is still there. -/
theorem kset_loads_until_spoilt_loaded_again :
    ∃ es w, Run Step Module.start es w ∧ es.countP Event.succeeded = 0 ∧ es.length = 2 ∧
      Always (fun pre e ↦ e.succeeded = true ↔ Able e ∧ ∀ f ∈ pre, ¬Spoils f) es ∧
      (w.loaded = false → ∃ kset, w.sys = .noObjects kset ∧ (kset = true ↔ ∃ e ∈ es, Spoils e)) := by
  let m : Met := ⟨true, fun name ↦ decide (name ≠ .baz), fun _ ↦ true⟩
  let m' : Met := ⟨true, fun _ ↦ true, fun _ ↦ true⟩
  have hno : ¬m.Objects := fun h ↦ absurd (h .baz).1 (by decide)
  have h₁ : Run Step Module.start [.init m (- EINVAL)] ⟨.noObjects true, false⟩ :=
    .snoc .nil (.init m (example_init_undone rfl hno))
  have h₂ := h₁.snoc (.init m' (example_init_fails fun h ↦ absurd h.2 (by decide)))
  exact ⟨_, _, h₂, rfl, rfl, kset_loads_until_spoilt h₂⟩

end Runs

end OK210Drivers.Sysfs.Kset
