import AssemblerIndex.Assembly.Step
import AssemblerIndex.Proofs.Assembly.Loading

/-!
# What the processing of a statement leaves alone

Whatever a statement does before a listing is entered or left, it works in the innermost scope and in
the tables that all scopes share:

* `Stays a b` — from `a` to `b` the listings, the sources, the levels and the scopes of the callers are
  as they were, no transition failed other than a synonym of an unknown operation code, and the tables
  are still in order (`Sound`);
* `Holds a b` — besides, the branch counter of the innermost scope is as it was;
* `Keeps a b` — besides, the sequence symbols of open code are as they were;
* `Spares a b` — besides, all scopes are as they were.

There is one lemma for each operation, named after it.  This module goes as far as macro
definitions; the statements follow in `Process`.
-/

namespace AssemblerIndex.Assembly

/-! ### Tables in order -/

/-- The tables of an assembly are in order: macros stand under their names, copy members are those of
the library, every name that stands for something has been met and is not empty, and the library has no
macro of a name that was refused. -/
structure Sound (a : Assembly) : Prop where
  macroName : ∀ {n d}, a.context.macros.find? n = some d →
    d.name = n ∧ n ≠ "" ∧ n ∈ a.context.names
  macroPlain : ∀ {n d}, a.context.macros.find? n = some d → n.toList.contains '&' = false
  copyMember : ∀ {n m}, a.context.copyMembers.find? n = some m →
    ∃ f, a.library.find? n = some f ∧ m = f.copyMember n
  symbolName : ∀ {n s}, a.context.symbols.find? n = some s → n ≠ "" ∧ n ∈ a.context.names
  instructionName : ∀ {n k}, instructionKind? n = some k → n ∈ a.context.names
  synonymName : ∀ {n t}, a.context.synonyms.find? n = some t → n ≠ ""
  refusal : ∀ {n}, n ∈ a.refused → a.library.definedMacro? n ≠ some n

/-- The transitions that failed, apart from synonyms of unknown operation codes. -/
def breaches (a : Assembly) : List ContextError :=
  a.failures.filter fun
    | .undefinedOpcode _ => false
    | _ => true

/-- The tables are in order if only names have been met. -/
theorem Sound.of_names {a b : Assembly} (h : a.Sound)
    (same : (b.library, b.refused, b.context.macros, b.context.copyMembers, b.context.symbols,
        b.context.synonyms) =
      (a.library, a.refused, a.context.macros, a.context.copyMembers, a.context.symbols,
        a.context.synonyms))
    (names : ∀ n ∈ a.context.names, n ∈ b.context.names) : b.Sound := by
  simp only [Prod.mk.injEq] at same
  obtain ⟨hl, hr, hm, hc, hs, hy⟩ := same
  constructor
  · intro n d hd
    obtain ⟨h1, h2, h3⟩ := h.macroName (hm ▸ hd)
    exact ⟨h1, h2, names _ h3⟩
  · intro n d hd
    exact h.macroPlain (hm ▸ hd)
  · intro n m hm
    rw [hl]
    exact h.copyMember (hc ▸ hm)
  · intro n s hd
    obtain ⟨h1, h2⟩ := h.symbolName (hs ▸ hd)
    exact ⟨h1, names _ h2⟩
  · intro n k hk
    exact names _ (h.instructionName hk)
  · intro n t hn
    exact h.synonymName (hy ▸ hn)
  · intro n hn
    rw [hl]
    exact h.refusal (hr ▸ hn)

/-! ### The four relations -/

/-- From `a` to `b` only the innermost scope and the shared tables have changed; in open code the places
in the source and in its copy members may have changed as well. -/
structure Stays (a b : Assembly) : Prop where
  control : b.control = a.control
  library : b.library = a.library
  settings : b.settings = a.settings
  file : b.context.file = a.context.file
  branchLimit : b.context.branchLimit = a.context.branchLimit
  members : b.context.base.copyStack.map (·.member) = a.context.base.copyStack.map (·.member)
  base : a.context.calls ≠ [] → b.context.base = a.context.base
  sources : b.context.sources = a.context.sources
  levels : b.context.levels = a.context.levels
  definitions : b.context.calls.map (·.invocation.definition) =
    a.context.calls.map (·.invocation.definition)
  callers : b.context.calls.tail = a.context.calls.tail
  openCode : a.context.calls ≠ [] → b.context.openCode = a.context.openCode
  breaches : b.breaches = a.breaches
  names : ∀ n ∈ a.context.names, n ∈ b.context.names
  sound : a.Sound → b.Sound

/-- From `a` to `b` the branch counter of the innermost scope has not changed either. -/
structure Holds (a b : Assembly) : Prop extends Stays a b where
  counter : b.context.scope.branchCounter = a.context.scope.branchCounter

/-- From `a` to `b` only variables of the innermost scope and the shared tables have changed. -/
structure Keeps (a b : Assembly) : Prop extends Holds a b where
  labels : b.context.openCode.sequenceSymbols = a.context.openCode.sequenceSymbols

/-- From `a` to `b` only the shared tables have changed. -/
structure Spares (a b : Assembly) : Prop extends Keeps a b where
  calls : b.context.calls = a.context.calls
  ownScope : b.context.openCode = a.context.openCode
  ownBase : b.context.base = a.context.base

section Order

variable {a b c : Assembly}

theorem Stays.refl (a : Assembly) : a.Stays a :=
  ⟨rfl, rfl, rfl, rfl, rfl, rfl, fun _ => rfl, rfl, rfl, rfl, rfl, fun _ => rfl, rfl, fun _ => id, id⟩

theorem Stays.calls_ne_nil (h : a.Stays b) (ha : a.context.calls ≠ []) : b.context.calls ≠ [] := by
  intro hb
  have := h.definitions
  rw [hb] at this
  exact ha (List.map_eq_nil_iff.1 this.symm)

theorem Stays.calls_eq_nil (h : a.Stays b) (ha : a.context.calls = []) : b.context.calls = [] := by
  have := h.definitions
  rw [ha] at this
  exact List.map_eq_nil_iff.1 this

theorem Stays.length_calls (h : a.Stays b) : b.context.calls.length = a.context.calls.length := by
  have := congrArg List.length h.definitions
  rwa [List.length_map, List.length_map] at this

theorem Stays.depth (h : a.Stays b) : b.context.depth = a.context.depth :=
  congrArg (· + 1) h.length_calls

theorem Stays.trans (h : a.Stays b) (h' : b.Stays c) : a.Stays c where
  control := h'.control.trans h.control
  library := h'.library.trans h.library
  settings := h'.settings.trans h.settings
  file := h'.file.trans h.file
  branchLimit := h'.branchLimit.trans h.branchLimit
  members := h'.members.trans h.members
  base ha := (h'.base (h.calls_ne_nil ha)).trans (h.base ha)
  sources := h'.sources.trans h.sources
  levels := h'.levels.trans h.levels
  definitions := h'.definitions.trans h.definitions
  callers := h'.callers.trans h.callers
  openCode ha := (h'.openCode (h.calls_ne_nil ha)).trans (h.openCode ha)
  breaches := h'.breaches.trans h.breaches
  names n hn := h'.names n (h.names n hn)
  sound ha := h'.sound (h.sound ha)

theorem Holds.refl (a : Assembly) : a.Holds a := ⟨.refl a, rfl⟩

theorem Holds.trans (h : a.Holds b) (h' : b.Holds c) : a.Holds c :=
  ⟨h.toStays.trans h'.toStays, h'.counter.trans h.counter⟩

theorem Keeps.refl (a : Assembly) : a.Keeps a := ⟨.refl a, rfl⟩

theorem Keeps.trans (h : a.Keeps b) (h' : b.Keeps c) : a.Keeps c :=
  ⟨h.toHolds.trans h'.toHolds, h'.labels.trans h.labels⟩

theorem Spares.refl (a : Assembly) : a.Spares a := ⟨.refl a, rfl, rfl, rfl⟩

theorem Spares.trans (h : a.Spares b) (h' : b.Spares c) : a.Spares c :=
  ⟨h.toKeeps.trans h'.toKeeps, h'.calls.trans h.calls, h'.ownScope.trans h.ownScope,
    h'.ownBase.trans h.ownBase⟩

/-- Scopes, sources and levels are the same. -/
theorem Spares.of_same
    (outer : (b.control, b.library, b.settings, b.breaches) =
      (a.control, a.library, a.settings, a.breaches))
    (inner : (b.context.file, b.context.branchLimit, b.context.base, b.context.sources,
        b.context.levels, b.context.calls, b.context.openCode) =
      (a.context.file, a.context.branchLimit, a.context.base, a.context.sources,
        a.context.levels, a.context.calls, a.context.openCode))
    (names : ∀ n ∈ a.context.names, n ∈ b.context.names)
    (sound : a.Sound → b.Sound) : a.Spares b := by
  simp only [Prod.mk.injEq] at outer inner
  obtain ⟨h1, h2, h3, h4⟩ := outer
  obtain ⟨g1, g2, g3, g4, g5, g6, g7⟩ := inner
  have hs : b.context.scope = a.context.scope := by unfold Context.scope; rw [g6, g7]
  exact ⟨⟨⟨⟨h1, h2, h3, g1, g2, by rw [g3], fun _ => g3, g4, g5, by rw [g6], by rw [g6], fun _ => g7,
    h4, names, sound⟩, by rw [hs]⟩, by rw [g7]⟩, g6, g7, g3⟩

end Order

theorem attempt_of_ok {a : Assembly} {f : Context → Except ContextError Context} {x : Context}
    (h : f a.context = .ok x) : a.attempt f = { a with context := x } := by
  unfold attempt
  rw [h]

theorem attempt_of_error {a : Assembly} {f : Context → Except ContextError Context} {e : ContextError}
    (h : f a.context = .error e) : a.attempt f = a.fail e := by
  unfold attempt
  rw [h]

/-! ### Names, files and copy members -/

/-- Loading copy members leaves all scopes alone. -/
theorem Loads.spares {a b : Assembly} (h : a.Loads b) : a.Spares b := by
  have hframe := h.frame
  refine .of_same (by rw [hframe]; rfl) (by rw [hframe]) h.names fun ha => ⟨?_, ?_, ?_, ?_, ?_, ?_, ?_⟩
  · intro n d hd
    rw [hframe] at hd
    obtain ⟨h1, h2, h3⟩ := ha.macroName hd
    exact ⟨h1, h2, h.names _ h3⟩
  · intro n d hd
    rw [hframe] at hd
    exact ha.macroPlain hd
  · intro n m hm
    rw [h.library]
    rcases h.copyMembers n with hn | ⟨-, found, hfound, hn⟩
    · exact ha.copyMember (hn ▸ hm)
    · exact ⟨found, hfound, Option.some.inj (hm.symm.trans hn)⟩
  · intro n s hs
    rw [hframe] at hs
    obtain ⟨h1, h2⟩ := ha.symbolName hs
    exact ⟨h1, h.names _ h2⟩
  · intro n k hk
    exact h.names _ (ha.instructionName hk)
  · intro n t hn
    rw [hframe] at hn
    exact ha.synonymName hn
  · intro n hn
    rw [hframe] at hn ⊢
    exact ha.refusal hn

theorem spares_meet (a : Assembly) (names : List String) : a.Spares (a.meet names) := (loads_meet ..).spares

theorem spares_addFile (a : Assembly) (file : String) (content : FileContent) (text : String) :
    a.Spares (a.addFile file content text) := by
  unfold addFile
  split
  · exact .refl a
  · exact .of_same rfl rfl (fun _ => id) fun h => h.of_names rfl fun _ => id

theorem spares_copyMember? (a : Assembly) (name : String) : a.Spares (a.copyMember? name).1 :=
  (loads_copyMember? ..).spares

/-- A copy member that was found stands in the table under the name that was asked for. -/
theorem find?_of_copyMember? {a : Assembly} (ha : a.Sound) {name : String} {m : CopyMember}
    (h : (a.copyMember? name).2 = some m) :
    m.name = name ∧ (a.copyMember? name).1.context.copyMembers.find? name = some m := by
  unfold copyMember? at h ⊢
  dsimp only at h ⊢
  split at h
  · rename_i m' hm
    obtain rfl := Option.some.inj h
    obtain ⟨f, -, rfl⟩ := ha.copyMember hm
    exact ⟨rfl, hm⟩
  · rename_i hm
    split at h
    · rename_i found hf
      obtain rfl := Option.some.inj h
      obtain ⟨v, t, hx, -, ht⟩ := exists_addCopyMember (a.meet [name]).context (found.copyMember name)
      refine ⟨rfl, ?_⟩
      rw [context_addFile]
      change ((a.meet [name]).context.addCopyMember _).copyMembers.find? name = _
      rw [hx, show t.find? name = _ from ht name, if_pos ⟨hm, rfl⟩]
    · simp at h

/-! ### Definitions -/

theorem spares_note (r : Reading) (n : NestedStatement) (callee : Option MacroDefinition) :
    r.assembly.Spares (r.note n callee).assembly := (loads_note ..).spares

theorem spares_noteBody (r : Reading) (n : NestedStatement) :
    r.assembly.Spares (r.noteBody n).assembly := (loads_noteBody ..).spares

/-- A definition is registered under its name, which has been met before. -/
theorem spares_register {a : Assembly} {r : MacroRecord} (hne : r.definition.name ≠ "")
    (hplain : r.definition.name.toList.contains '&' = false)
    (hmet : r.definition.name ∈ a.context.names) : a.Spares (a.register r).1 := by
  have key : ∀ b : Assembly, (b.control, b.library, b.settings, b.breaches) =
      (a.control, a.library, a.settings, a.breaches) → b.refused = a.refused →
      b.context = (a.context.addMacro r.definition).1 → a.Spares b := by
    intro b hb hrefused hx
    refine .of_same hb (by rw [hx]; rfl) (fun n hn => by rw [hx]; exact hn) fun h => ?_
    simp only [Prod.mk.injEq] at hb
    constructor
    · intro n d hd
      rw [hx] at hd ⊢
      change ((a.context.macros.insert r.definition.name _).find? n) = some d at hd
      rw [Table.find?_insert] at hd
      split at hd
      · rename_i hn
        obtain rfl := Option.some.inj hd
        exact ⟨hn.symm, hn ▸ hne, hn ▸ hmet⟩
      · exact h.macroName hd
    · intro n d hd
      rw [hx] at hd
      change ((a.context.macros.insert r.definition.name _).find? n) = some d at hd
      rw [Table.find?_insert] at hd
      split at hd
      · rename_i hn
        exact hn ▸ hplain
      · exact h.macroPlain hd
    · rw [hx, hb.2.1]
      exact h.copyMember
    · rw [hx]
      exact h.symbolName
    · rw [hx]
      exact h.instructionName
    · rw [hx]
      exact h.synonymName
    · rw [hrefused, hb.2.1]
      exact h.refusal
  unfold register
  dsimp only
  split
  · exact key _ rfl rfl rfl
  · exact key _ rfl rfl rfl

theorem find?_register (a : Assembly) (r : MacroRecord) :
    (a.register r).1.context.macros.find? (a.register r).2.name = some (a.register r).2 := by
  unfold register
  dsimp only
  split <;> simp [Context.addMacro]

theorem spares_define (a : Assembly) (items : List NestedStatement) (isExternal : Bool) :
    a.Spares (a.define items isExternal).1 := by
  cases hname : definedName? items with
  | none =>
    rw [define_of_none hname]
    exact .refl a
  | some name =>
    obtain ⟨hne, hplain⟩ := usable_of_definedName? hname
    obtain ⟨b, r, hloads, hmet, rfl, hdefine⟩ := define_of_some hname a isExternal
    rw [hdefine]
    exact hloads.spares.trans (spares_register hne hplain hmet)

/-! ### Levels of processing -/

/-- Behind a level of its own, with or without a source of its own, the levels and the sources are those
from before it. -/
theorem attempt_popLevel {a b : Assembly} {l : Level} {s : List Source}
    (hs : (if l.ownsSource then s.tail else s) = a.context.sources)
    (h : ({ a with context :=
      { a.context with levels := l :: a.context.levels, sources := s } }).Stays b) :
    b.attempt Context.popLevel = { b with context :=
      { b.context with levels := a.context.levels, sources := a.context.sources } } := by
  have hl : b.context.levels = l :: a.context.levels := h.levels
  have hb : b.context.sources = s := h.sources
  refine attempt_of_ok ?_
  unfold Context.popLevel
  rw [hl]
  simp only [hb, hs]

theorem stays_level {a b : Assembly} {l : Level} {s : List Source}
    (hs : (if l.ownsSource then s.tail else s) = a.context.sources)
    (h : ({ a with context :=
      { a.context with levels := l :: a.context.levels, sources := s } }).Stays b) :
    a.Stays (b.attempt Context.popLevel) := by
  rw [attempt_popLevel hs h]
  exact
    { control := h.control, library := h.library, settings := h.settings, file := h.file
      branchLimit := h.branchLimit, members := h.members, base := h.base, sources := rfl, levels := rfl
      definitions := h.definitions, callers := h.callers, openCode := h.openCode
      breaches := h.breaches, names := h.names
      sound := fun ha => (h.sound (ha.of_names rfl fun _ => id)).of_names rfl fun _ => id }

theorem holds_level {a b : Assembly} {l : Level} {s : List Source}
    (hs : (if l.ownsSource then s.tail else s) = a.context.sources)
    (h : ({ a with context :=
      { a.context with levels := l :: a.context.levels, sources := s } }).Holds b) :
    a.Holds (b.attempt Context.popLevel) := by
  refine ⟨stays_level hs h.toStays, ?_⟩
  rw [attempt_popLevel hs h.toStays]
  exact h.counter

theorem spares_level {a b : Assembly} {l : Level} {s : List Source}
    (hs : (if l.ownsSource then s.tail else s) = a.context.sources)
    (h : ({ a with context :=
      { a.context with levels := l :: a.context.levels, sources := s } }).Spares b) :
    a.Spares (b.attempt Context.popLevel) := by
  refine ⟨⟨holds_level hs h.toHolds, ?_⟩, ?_, ?_, ?_⟩
  · rw [attempt_popLevel hs h.toStays]
    exact h.labels
  · rw [attempt_popLevel hs h.toStays]
    exact h.calls
  · rw [attempt_popLevel hs h.toStays]
    exact h.ownScope
  · rw [attempt_popLevel hs h.toStays]
    exact h.ownBase

end AssemblerIndex.Assembly
