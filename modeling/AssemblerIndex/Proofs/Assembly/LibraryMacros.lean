import AssemblerIndex.Proofs.Assembly.Stays

/-!
# Macros that are loaded from a library

Looking for a macro in the library goes through the member of its name: the first definition in it is read with a
source of its own and registered, and the macro is found if it has the name that was asked for.

* `Sought` — all that looking for a macro can do;
* `rejected_macro_trace` — **a rejected macro leaves no trace** unless its member defines a macro of another name, which
  is then registered all the same.  `rejected_macro_leaves_trace` is such a case.
-/

namespace AssemblerIndex.Assembly

/-! ### Definitions -/

@[simp] theorem name_register (a : Assembly) (r : MacroRecord) : (a.register r).2.name = r.definition.name := by
  unfold register
  dsimp only
  split <;> rfl

/-- Registering a definition does not depend on the sources and levels. -/
theorem register_setSources (a : Assembly) (r : MacroRecord) (levels : List Level) (sources : List Source) :
    ({ a with context := { a.context with levels, sources } }.register r) =
      ({ (a.register r).1 with context := { (a.register r).1.context with levels, sources } }, (a.register r).2) := by
  unfold register
  dsimp only [Context.addMacro]
  split <;> rfl

/-- What is loaded while a level of its own is open has been loaded behind it as well. -/
theorem Loads.of_level {a b : Assembly} {levels : List Level} {sources : List Source}
    (h : ({ a with context := { a.context with levels, sources } }).Loads b) :
    a.Loads { b with context := { b.context with levels := a.context.levels, sources := a.context.sources } } :=
  ⟨by rw [h.frame], h.names, h.visited, h.copyMembers, h.files⟩

/-! ### Looking for a macro -/

/-- A definition is read while a level of its own is open, which is gone behind it. -/
theorem define_in_level (a : Assembly) (l : Level) (s : List Source)
    (hs : (if l.ownsSource then s.tail else s) = a.context.sources) (items : List NestedStatement) (isExternal : Bool)
    {name : String} (h : definedName? items = some name) :
    ∃ b r, a.Loads b ∧ name ∈ b.context.names ∧ r.definition.name = name ∧
      (({ a with context := { a.context with levels := l :: a.context.levels, sources := s } }).define items
        isExternal).1.attempt Context.popLevel = (b.register r).1 ∧
      (({ a with context := { a.context with levels := l :: a.context.levels, sources := s } }).define items
        isExternal).2 = some (b.register r).2 := by
  generalize hx : ({ a with context := { a.context with levels := l :: a.context.levels, sources := s } } : Assembly) = x
  have hpop := attempt_popLevel (a := a) (l := l) hs (hx ▸ (spares_define x items isExternal).toStays)
  obtain ⟨b, r, hb, hmet, hr, hdefine⟩ := define_of_some h x isExternal
  have hregister := register_setSources b r a.context.levels a.context.sources
  subst hx
  refine ⟨_, r, hb.of_level, hmet, hr, ?_, ?_⟩
  · rw [hpop, hdefine, hregister]
  · rw [hdefine, hregister]

/-- A definition is read with a source of its own, which is gone behind it. -/
theorem define_in_source (a : Assembly) (file : String) (items : List NestedStatement) {name : String}
    (h : definedName? items = some name) :
    ∃ b r, a.Loads b ∧ name ∈ b.context.names ∧ r.definition.name = name ∧
      ((a.mapContext (·.pushSource .macroDefinition file)).define items true).1.attempt Context.popLevel =
        (b.register r).1 ∧
      ((a.mapContext (·.pushSource .macroDefinition file)).define items true).2 = some (b.register r).2 :=
  define_in_level a ⟨.macroDefinition, true⟩ (.start file :: a.context.sources) rfl items true h

/-- All that looking for a macro can do. -/
inductive Sought (a : Assembly) (name : String) : Assembly × Option MacroDefinition → Prop
  /-- it was refused before -/
  | refused (hrefused : name ∈ a.refused) : Sought a name (a, none)
  /-- the library has no usable definition under the name -/
  | absent (hnew : name ∉ a.refused) (hnone : a.library.definedMacro? name = none) :
    Sought a name ({ a with refused := name :: a.refused }, none)
  /-- the definition under the name is one of another macro -/
  | other {n : String} {b : Assembly} {r : MacroRecord} (hnew : name ∉ a.refused)
    (hother : a.library.definedMacro? name = some n) (hne : n ≠ name) (hloads : a.Loads b)
    (hmet : n ∈ b.context.names) (hname : r.definition.name = n) :
    Sought a name ({ (b.register r).1 with refused := name :: a.refused }, none)
  /-- the macro is found -/
  | found {f : LibraryMember} {b : Assembly} {r : MacroRecord} (hnew : name ∉ a.refused)
    (hfound : a.library.find? name = some f) (hdefined : a.library.definedMacro? name = some name) (hloads : a.Loads b)
    (hmet : name ∈ b.context.names) (hname : r.definition.name = name) :
    Sought a name ((b.register r).1.addFile f.uri (.definition (b.register r).2) f.text, some (b.register r).2)

@[simp] theorem refused_register (a : Assembly) (r : MacroRecord) : (a.register r).1.refused = a.refused := by
  unfold register
  dsimp only
  split <;> rfl

theorem sought_loadMacro (a : Assembly) (name : String) : Sought a name (a.loadMacro name) := by
  unfold loadMacro
  by_cases hrefused : name ∈ a.refused
  · rw [if_pos (by simpa using hrefused)]
    exact .refused hrefused
  · rw [if_neg (by simpa using hrefused)]
    cases hfound : a.library.find? name with
    | none =>
      exact .absent hrefused (by unfold Library.definedMacro? Library.definitionItems; rw [hfound]; rfl)
    | some f =>
      dsimp only
      generalize hitems : throughMend 0 _ = items
      have hdefined : a.library.definedMacro? name = definedName? items := by
        unfold Library.definedMacro? Library.definitionItems
        rw [hfound, ← hitems]
      cases hname : definedName? items with
      | none =>
        have hpop := attempt_popLevel (a := a) (l := ⟨.macroDefinition, true⟩) (s := .start f.uri :: a.context.sources)
          rfl (Stays.refl _)
        rw [define_of_none hname]
        change Sought a name ({ attempt Context.popLevel _ with refused := name :: _ }, none)
        rw [show attempt Context.popLevel (a.mapContext (·.pushSource .macroDefinition f.uri)) = a from hpop]
        exact .absent hrefused (hdefined.trans hname)
      | some n =>
        obtain ⟨b, r, hloads, hmet, hr, hfirst, hsecond⟩ := define_in_source a f.uri items hname
        rw [hfirst, hsecond]
        by_cases hn : n = name
        · have hfilter : (some (b.register r).2).filter (·.name == name) = some (b.register r).2 := by
            simp [hr, hn]
          rw [hfilter]
          exact .found hrefused hfound (by rw [hdefined, hname, hn]) hloads (hn ▸ hmet) (hr.trans hn)
        · have hfilter : (some (b.register r).2).filter (·.name == name) = none := by
            simp [hr, hn]
          rw [hfilter]
          dsimp only
          rw [refused_register, show b.refused = a.refused by rw [hloads.frame]]
          exact .other hrefused (hdefined.trans hname) hn hloads hmet hr

theorem spares_refuse {a : Assembly} {name : String} (h : a.library.definedMacro? name ≠ some name) :
    a.Spares { a with refused := name :: a.refused } := by
  refine .of_same rfl rfl (fun _ => id) fun ha =>
    { macroName := ha.macroName, macroPlain := ha.macroPlain, copyMember := ha.copyMember
      symbolName := ha.symbolName, instructionName := ha.instructionName, synonymName := ha.synonymName
      refusal := fun {n} hn => ?_ }
  rcases List.mem_cons.1 hn with rfl | hn
  · exact h
  · exact ha.refusal hn

theorem spares_loadMacro (a : Assembly) (name : String) : a.Spares (a.loadMacro name).1 := by
  have hsought := sought_loadMacro a name
  generalize a.loadMacro name = res at hsought
  have registered {b : Assembly} {r : MacroRecord} {n : String} (hdefined : a.library.definedMacro? name = some n)
      (hloads : a.Loads b) (hmet : n ∈ b.context.names) (hname : r.definition.name = n) : a.Spares (b.register r).1 :=
    have husable := usable_of_definedName? (hname ▸ hdefined)
    hloads.spares.trans (spares_register husable.1 husable.2 (by rwa [hname]))
  cases hsought with
  | refused => exact .refl _
  | absent _ hnone => exact spares_refuse (by rw [hnone]; simp)
  | @other n b r _ hother hne hloads hmet hname =>
    have h := registered hother hloads hmet hname
    have hrefused : (b.register r).1.refused = a.refused := by rw [refused_register, hloads.frame]
    rw [← hrefused]
    refine h.trans (spares_refuse ?_)
    rw [h.library, hother]
    simpa using hne
  | found _ _ hdefined hloads hmet hname =>
    exact (registered hdefined hloads hmet hname).trans (spares_addFile ..)

/-- A macro that was loaded stands in the table under the name that was asked for. -/
theorem find?_of_loadMacro {a : Assembly} {name : String} {d : MacroDefinition}
    (h : (a.loadMacro name).2 = some d) :
    d.name = name ∧ (a.loadMacro name).1.context.macros.find? name = some d := by
  have hsought := sought_loadMacro a name
  generalize a.loadMacro name = res at h hsought
  cases hsought with
  | refused => cases h
  | absent => cases h
  | other => cases h
  | @found f b r _ _ _ _ _ hname =>
    obtain rfl := Option.some.inj h
    have hd : (b.register r).2.name = name := (name_register ..).trans hname
    refine ⟨hd, ?_⟩
    rw [context_addFile, ← hd]
    exact find?_register b r

/-- A macro that was loaded is the first definition in the member of its name. -/
theorem define_of_loadMacro {a : Assembly} {name : String} {d : MacroDefinition} (h : (a.loadMacro name).2 = some d) :
    ∃ found : LibraryMember,
      ((a.mapContext (·.pushSource .macroDefinition found.uri)).define (a.library.definitionItems name) true).2 =
        some d := by
  unfold loadMacro at h
  split at h
  · cases h
  · cases hfound : a.library.find? name with
    | none =>
      rw [hfound] at h
      cases h
    | some found =>
      rw [hfound] at h
      refine ⟨found, ?_⟩
      unfold Library.definitionItems
      rw [hfound]
      dsimp only at h ⊢
      split at h
      · rename_i hd
        rw [Option.filter_eq_some_iff] at hd
        exact hd.1.trans h
      · cases h

theorem spares_macro? (a : Assembly) (opcode : String) : a.Spares (a.macro? opcode).1 := by
  unfold macro?
  split
  · exact .refl _
  · refine (spares_meet a [opcode]).trans ?_
    dsimp only
    split
    · exact .refl _
    · split
      · exact .refl _
      · split
        · exact .refl _
        · exact spares_loadMacro ..

/-- A macro that an operation code calls stands in the table under its name. -/
theorem find?_of_macro? {a : Assembly} (ha : a.Sound) {opcode : String} {d : MacroDefinition}
    (h : (a.macro? opcode).2 = some d) :
    (a.macro? opcode).1.context.macros.find? d.name = some d := by
  unfold macro? at h ⊢
  split at h
  · simp at h
  · rename_i ho
    rw [if_neg ho]
    dsimp only at h ⊢
    split at h
    · simp at h
    · rename_i hn
      rw [if_neg hn]
      split at h
      · rename_i d' hd
        obtain rfl := Option.some.inj h
        rw [(((spares_meet a [opcode]).sound ha).macroName hd).1]
        exact hd
      · rename_i hd
        split at h
        · simp at h
        · rename_i hi
          rw [if_neg hi]
          obtain ⟨h1, h2⟩ := find?_of_loadMacro h
          rw [h1]
          exact h2

/-! ### Rejected macros -/

/-- **A rejected macro leaves no trace** but the note that it was refused, if its member defines no macro; nothing at
all changes if it was refused before.  If the member defines a macro of another name, that one is registered behind the
copy members it loads. -/
theorem rejected_macro_trace (a : Assembly) (name : String) (hreject : (a.loadMacro name).2 = none) :
    (name ∈ a.refused → (a.loadMacro name).1 = a) ∧
    (name ∉ a.refused → a.library.definedMacro? name = none →
      (a.loadMacro name).1 = { a with refused := name :: a.refused }) ∧
    ∀ n, name ∉ a.refused → a.library.definedMacro? name = some n → n ≠ name ∧ ∃ b r, a.Loads b ∧
      r.definition.name = n ∧ (a.loadMacro name).1 = { (b.register r).1 with refused := name :: a.refused } := by
  have hsought := sought_loadMacro a name
  generalize a.loadMacro name = res at hreject hsought
  cases hsought with
  | refused hrefused => exact ⟨fun _ => rfl, fun h => absurd hrefused h, fun _ h => absurd hrefused h⟩
  | absent hnew hnone =>
    refine ⟨fun h => absurd h hnew, fun _ _ => rfl, fun n _ hn => ?_⟩
    rw [hnone] at hn
    cases hn
  | @other n b r hnew hother hne hloads hmet hname =>
    refine ⟨fun h => absurd h hnew, fun _ hnone => ?_, fun m _ hm => ?_⟩
    · rw [hother] at hnone
      cases hnone
    · obtain rfl := Option.some.inj (hother.symm.trans hm)
      exact ⟨hne, b, r, hloads, hname, rfl⟩
  | found => cases hreject

/-- The prototype of a macro is no usable name. -/
def unusableMember : LibraryMember := ⟨"L", " COPY A\n MACRO\n&NAME\n COPY A\n MEND"⟩

theorem unusable_prototype_rejected :
    ((start (.start "S" {} default) " WANT" (.ofMembers [("WANT", unusableMember)]) {}).loadMacro "WANT").2 = none ∧
    ((start (.start "S" {} default) " WANT" (.ofMembers [("WANT", unusableMember)]) {}).loadMacro "WANT").1 =
      { start (.start "S" {} default) " WANT" (.ofMembers [("WANT", unusableMember)]) {} with refused := ["WANT"] } := by
  have hnone : (Library.ofMembers [("WANT", unusableMember)]).definedMacro? "WANT" = none := by decide +kernel
  have hreject : ((start (.start "S" {} default) " WANT" (.ofMembers [("WANT", unusableMember)]) {}).loadMacro "WANT").2 = none := by
    rw [← Option.isNone_iff_eq_none]
    decide +kernel
  exact ⟨hreject, (rejected_macro_trace _ _ hreject).2.1 (by simp [start]) hnone⟩

/-- A member that defines a macro of another name. -/
def misnamedMember : LibraryMember := ⟨"L", " MACRO\n OTHER\nX EQU 1\n MEND"⟩

/-- **A macro of another name is registered and recorded although it is rejected.** -/
theorem rejected_macro_leaves_trace :
    ∃ a : Assembly, (a.loadMacro "WANT").2 = none ∧ a.context.macros.find? "OTHER" = none ∧ a.records = [] ∧
      ((a.loadMacro "WANT").1.context.macros.find? "OTHER").isSome ∧ (a.loadMacro "WANT").1.records ≠ [] := by
  refine ⟨start (.start "S" {} default) " WANT\n OTHER" (.ofMembers [("WANT", misnamedMember)]) {}, ?_, rfl, rfl, ?_, ?_⟩
  · rw [← Option.isNone_iff_eq_none]
    decide +kernel
  · decide +kernel
  · rw [← List.isEmpty_eq_false_iff]
    decide +kernel

end AssemblerIndex.Assembly
