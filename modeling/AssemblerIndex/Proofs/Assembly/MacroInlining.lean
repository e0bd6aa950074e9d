import AssemblerIndex.Proofs.Assembly.MacroSite
import AssemblerIndex.Proofs.Assembly.Origins

/-!
# Loading a macro is defining it in front

The open code that may load a macro from the library is assembled side by side with the one that has the definition of
the macro in front of it.  The definition is read in the first step on the right; from there on the sides take their
steps together (`MacroSite.Follows`), whenever the left side loads the macro.  So both come to the same results
(`MacroSite.loading_is_defining`).  What is asked of the run, the open code and the library say as well
(`MacroSite.apart_of_library`, `MacroSite.unasking_of_silent`).
-/

namespace AssemblerIndex

open Assembly

namespace MacroSite

variable (S : MacroSite)

/-- No copy member that is opened has the file of the open code, so labels of this file are labels of the open code. -/
def Apart : Prop :=
  ∀ a m i, (S.assembling S.code).Reaches a → ⟨.copyMember m, i⟩ ∈ a.control → m.location.file ≠ S.file

/-- No statement that is processed asks for an operation code. -/
def Unasking : Prop :=
  ∀ a p outer s, (S.assembling S.code).Reaches a → a.control = p :: outer → p.statement? = some s →
    s.asksOpcode = false

/-- It suffices that no member of the library has the file of the open code. -/
theorem apart_of_library (h : ∀ name found, S.library.find? name = some found → found.uri ≠ S.file) : S.Apart := by
  intro a m i ha hm
  obtain ⟨found, hfound, he⟩ := ((S.balanced_assembling S.code).reaches ha).nested.exists_found hm
  rw [he]
  exact h _ _ hfound

/-- It suffices that neither the open code nor the library has a statement that asks for an operation code. -/
theorem unasking_of_silent (code : ∀ s ∈ S.code, s.asksOpcode = false)
    (library : S.library.ConsistsOf fun s => s.asksOpcode = false) : S.Unasking := by
  intro a p outer s ha hc hs
  refine ha.kind (S.balanced_assembling S.code) (fun s hs => code s (List.mem_toArray.1 hs)) library (fun _ _ h => ?_)
    (fun _ _ h => ?_) (hc ▸ List.mem_cons_self) s (Array.mem_of_getElem? hs)
  · cases h
  · cases List.mem_singleton.1 h

section Steps

variable {S} {M : LibraryMacro} {a b : Assembly} {j j' : Job}

/-- **The sides take their steps together** behind the definition. -/
theorem step_of_related (hapart : S.Apart) (hunasking : S.Unasking) (hr : (S.assembling S.code).Reaches a)
    (h : (S.pairing M).Related a b) (ha : Balanced j a) (hb : Balanced j' b) :
    SameOutcome (S.pairing M).Related a.step b.step := by
  have hc : S.Along a.control b.control := h.control
  have fixed {p : Activation} {outer : List Activation} (ca : a.control = p :: outer) (s : Statement)
      (hs : p.statement? = some s) : M.congruence.Fixes s := M.fixes (hunasking a p outer s hr ca hs)
  generalize ca : a.control = control at hc
  generalize cb : b.control = control' at hc
  cases hc with
  | finished =>
    rw [step_of_isFinished (List.isEmpty_iff.2 ca), step_of_isFinished (List.isEmpty_iff.2 cb)]
    exact .ok h
  | beside hbeside =>
    have hopen : SameOpen a b := Beside.sameOpen (S := S) (by rwa [ca, cb]) ha hb
    cases hbeside with
    | openCode i =>
      exact h.step_of_listing (f := S.shift) ha hb ca cb rfl rfl rfl (fun k => (Nat.add_assoc ..).symm)
        (fun k => (congrArg S.inlined.drop (Nat.add_assoc ..)).trans (drop_shift (i + k))) (fun _ _ => rfl)
        S.moves_shift hopen (fixed ca) (fun k => .beside (.openCode k))
        (fun m _ => .beside (.copy m 0 (.openCode (i + 1)))) .finished
    | copy m i ho =>
      have hfile : m.location.file ≠ S.file := hapart a m i hr (ca ▸ List.mem_cons_self)
      exact h.step_of_listing (f := id) ha hb ca cb rfl rfl rfl (fun _ => rfl) (fun _ => rfl) (fun _ _ => rfl)
        (S.moves_id hfile) hopen (fixed ca) (fun k => .beside (.copy m k ho))
        (fun m' _ => .beside (.copy m' 0 (.copy m (i + 1) ho))) (.beside ho)
  | call i hd ho => exact h.step_of_call ha hb hd ca cb ho (fixed ca)

end Steps

/-! ### Runs -/

/-- The two sides in the course of their runs, behind the definition. -/
structure Follows (M : LibraryMacro) (a b : Assembly) : Prop extends (S.pairing M).Related a b where
  left : (S.assembling S.code).Reaches a
  right : (S.assembling S.inlined).Reaches b

section Runs

variable {S} {M : LibraryMacro}

theorem simulates (hapart : S.Apart) (hunasking : S.Unasking) : Simulates (S.Follows M) fun _ => 0 where
  finished h := Along.isEmpty h.control
  step {a b} h _ := by
    have ha := (S.balanced_assembling S.code).reaches h.left
    have hb := (S.balanced_assembling S.inlined).reaches h.right
    exact .inr ((step_of_related hapart hunasking h.left h.toRelated ha hb).mono fun x y hx hy h' =>
      ⟨h', h.left.trans (reaches_of_step hx), h.right.trans (reaches_of_step hy)⟩)

/-- Behind the definition the sides follow each other. -/
theorem Proper.follows (hS : S.Proper) : ∃ b, (S.assembling S.inlined).step = .ok b ∧
    S.Follows hS.libraryMacro (S.assembling S.code) b := by
  obtain ⟨b, hstep, hcontrol, hlabels, hakin⟩ := hS.step_inlined
  refine ⟨b, hstep, ⟨hakin, ?_, ?_⟩, .refl _, reaches_of_step hstep⟩
  · intro n
    rw [hlabels]
    rfl
  · rw [hcontrol]
    exact .beside (.openCode 0)

end Runs

end MacroSite

/-- The assemblies have the same results, apart from their macros: ordinary symbols, sections and location counters,
SET symbols of open code and global ones, and the number of macro calls. -/
structure SameValues (a b : Assembly) : Prop where
  symbols : a.context.symbols.symbols.map (fun s => (s.name, s.value, s.attributes)) =
    b.context.symbols.symbols.map fun s => (s.name, s.value, s.attributes)
  sections : a.context.symbols.sections = b.context.symbols.sections
  currentSection : a.context.symbols.current = b.context.symbols.current
  setSymbols : a.context.openCode.bindings = b.context.openCode.bindings
  globals : a.context.globals = b.context.globals
  systemGlobals : a.context.systemGlobals = b.context.systemGlobals
  callCount : a.context.callCount = b.context.callCount

theorem LibraryMacro.Near.sameValues {M : LibraryMacro} {a b : Assembly} (h : M.Near a b) : SameValues a b where
  symbols := by
    have hs := congrArg (fun t : SymbolTable => t.symbols.map fun s => (s.name, s.value, s.attributes))
      h.symbols
    simpa only [SymbolTable.core, Array.map_map, Function.comp_def] using hs
  sections := congrArg (·.sections) h.symbols
  currentSection := congrArg (·.current) h.symbols
  setSymbols := congrArg (·.openCode.bindings) h.context
  globals := congrArg (·.globals) h.context
  systemGlobals := congrArg (·.systemGlobals) h.context
  callCount := congrArg (·.callCount) h.context

/-- **A macro of the library behaves like the same macro defined in front of the open code**: the one open code ends with
a result iff the other one does, and the results are the same; so are faults. -/
theorem MacroSite.loading_is_defining (S : MacroSite) (proper : S.Proper) (apart : S.Apart) (unasking : S.Unasking) :
    (∀ r, (S.assembling S.code).Yields r →
      ∃ r', (S.assembling S.inlined).Yields r' ∧ SameOutcome SameValues r r') ∧
    (∀ r', (S.assembling S.inlined).Yields r' →
      ∃ r, (S.assembling S.code).Yields r ∧ SameOutcome SameValues r r') := by
  obtain ⟨b, hstep, hfollows⟩ := proper.follows
  have hsim := simulates (M := proper.libraryMacro) apart unasking
  have results {r r' : Except AssemblyFault Assembly} (h : SameOutcome (S.Follows proper.libraryMacro) r r') :
      SameOutcome SameValues r r' := h.mono fun _ _ _ _ h => h.rel.sameValues
  constructor
  · intro r hr
    obtain ⟨r', hr', h⟩ := hsim.forward hfollows hr
    exact ⟨r', hr'.of_step hstep, results h⟩
  · intro r' hr'
    obtain ⟨r, hr, h⟩ := hsim.backward hfollows (hr'.behind_step hstep rfl)
    exact ⟨r, hr, results h⟩

/-! ### Sites of a macro -/

/-- A member that defines a macro. -/
def wantMember : LibraryMember := ⟨"m", " MACRO\n WANT\nX&SYSNDX EQU 5\n MEND\n"⟩

/-- The site of this macro with the given open code and further members in the library. -/
def wantSite (code : String) (others : List (String × LibraryMember)) : MacroSite where
  file := "S"
  library := .ofMembers (("WANT", wantMember) :: others)
  settings := {}
  now := default
  code := statementsOf code.toList
  name := "WANT"
  found := wantMember

section Sites

variable {code : String} {others : List (String × LibraryMember)}

theorem proper_wantSite (find : (wantSite code others).library.find? "WANT" = some wantMember) :
    (wantSite code others).Proper where
  find := find
  isDefinition := by
    show IsDefinition (statementsOf wantMember.text.toList) "WANT"
    constructor
    · decide +kernel
    · decide +kernel
    · decide +kernel
    · decide +kernel
  usable := by
    show "WANT" ≠ "" ∧ "WANT".toList.contains '&' = false
    decide +kernel
  notInstruction := by
    show instructionKind? "WANT" = none
    decide +kernel

theorem apart_wantSite (h : ∀ f ∈ (wantSite code others).library.members, f.uri ≠ "S") :
    (wantSite code others).Apart :=
  (wantSite code others).apart_of_library fun n f hf => h f ((wantSite code others).library.mem_of_find? n f hf)

theorem unasking_wantSite (code_silent : ∀ s ∈ statementsOf code.toList, s.asksOpcode = false)
    (library_silent : ∀ f ∈ (wantSite code others).library.members, ∀ s ∈ statementsOf f.text.toList,
      s.asksOpcode = false) : (wantSite code others).Unasking :=
  (wantSite code others).unasking_of_silent code_silent fun n f hf =>
    library_silent f ((wantSite code others).library.mem_of_find? n f hf)

end Sites

/-- The macro is called behind a branch, and once more in a copy member. -/
def callingSite : MacroSite := wantSite " AGO .L\nA EQU 1\n.L WANT\n COPY N\n" [("N", ⟨"n", " WANT\nB EQU 2\n"⟩)]

theorem load_behind_branch : ∃ e e', (callingSite.assembling callingSite.code).Yields (.ok e) ∧
    (callingSite.assembling callingSite.inlined).Yields (.ok e') ∧ e.context.callCount = 2 ∧ SameValues e e' := by
  have run : ((callingSite.assembling callingSite.code).run 14).toOption.any fun e =>
      e.isFinished && e.context.callCount == 2 := by
    decide +kernel
  obtain ⟨e, he, h⟩ := exists_of_any run
  rw [Bool.and_eq_true] at h
  have proper : callingSite.Proper := proper_wantSite (by decide +kernel)
  have apart : callingSite.Apart := apart_wantSite (by decide +kernel)
  have unasking : callingSite.Unasking := unasking_wantSite (by decide +kernel) (by decide +kernel)
  obtain ⟨r', hr', hsame⟩ := (callingSite.loading_is_defining proper apart unasking).1 _ (yields_of_run he h.1)
  cases hsame with
  | ok hsame => exact ⟨e, _, yields_of_run he h.1, hr', eq_of_beq h.2, hsame⟩

/-- A copy member has the file of the open code, and branches to a label of it. -/
def sharedFileSite : MacroSite := wantSite "A EQU 1\nB EQU 1\n.T ANOP\n COPY N\n"
  [("N", ⟨"S", " AGO .T\nP EQU 7\nQ EQU 8\nR EQU 9\n"⟩)]

/-- The text that a SET symbol of open code holds. -/
def heldText (a : Assembly) (name : String) : Option (List Char) :=
  match a.context.openCode.bindings.find? name with
  | some (.own s) => some (s.value []).toText
  | _ => none

/-- A copy member asks whether there is the macro. -/
def askingSite : MacroSite := wantSite " COPY N\n" [("N", ⟨"n", "&T SETC O'WANT\n"⟩)]

/-- **Loading is not defining** if a copy member has the file of the open code: a branch in that member takes the label of
the open code for one of its own, and the definition in front has moved that label.  Nor is it if a copy member asks for
the operation code before the macro is loaded, though neither the open code nor a macro does so. -/
theorem loading_differs_from_defining :
    (sharedFileSite.Proper ∧ sharedFileSite.Unasking ∧ ∃ e e',
      (sharedFileSite.assembling sharedFileSite.code).Yields (.ok e) ∧
      (sharedFileSite.assembling sharedFileSite.inlined).Yields (.ok e') ∧ ¬ SameValues e e') ∧
    (askingSite.Proper ∧ askingSite.Apart ∧ (∀ s ∈ askingSite.definition ++ askingSite.code, s.asksOpcode = false) ∧
      ∃ e e', (askingSite.assembling askingSite.code).Yields (.ok e) ∧
      (askingSite.assembling askingSite.inlined).Yields (.ok e') ∧ ¬ SameValues e e') := by
  constructor
  · have left : ((sharedFileSite.assembling sharedFileSite.code).run 12).toOption.any fun e =>
        e.isFinished && e.context.symbols.symbols.size == 4 := by
      decide +kernel
    have right : ((sharedFileSite.assembling sharedFileSite.inlined).run 9).toOption.any fun e =>
        e.isFinished && e.context.symbols.symbols.size == 2 := by
      decide +kernel
    obtain ⟨e, he, h⟩ := exists_of_any left
    obtain ⟨e', he', h'⟩ := exists_of_any right
    rw [Bool.and_eq_true] at h h'
    refine ⟨proper_wantSite (by decide +kernel), unasking_wantSite (by decide +kernel) (by decide +kernel), e, e',
      yields_of_run he h.1, yields_of_run he' h'.1, fun hsame => ?_⟩
    have hsize := congrArg Array.size hsame.symbols
    rw [Array.size_map, Array.size_map, eq_of_beq h.2, eq_of_beq h'.2] at hsize
    omega
  · have left : ((askingSite.assembling askingSite.code).run 4).toOption.any fun e =>
        e.isFinished && heldText e "T" == some ['U'] := by
      decide +kernel
    have right : ((askingSite.assembling askingSite.inlined).run 5).toOption.any fun e =>
        e.isFinished && heldText e "T" == some ['M'] := by
      decide +kernel
    obtain ⟨e, he, h⟩ := exists_of_any left
    obtain ⟨e', he', h'⟩ := exists_of_any right
    rw [Bool.and_eq_true] at h h'
    have quiet : ∀ s ∈ statementsOf wantMember.text.toList ++ statementsOf " COPY N\n".toList,
        s.asksOpcode = false := by
      decide +kernel
    refine ⟨proper_wantSite (by decide +kernel), apart_wantSite (by decide +kernel), quiet, e, e',
      yields_of_run he h.1, yields_of_run he' h'.1, fun hsame => ?_⟩
    have htext : heldText e "T" = heldText e' "T" := by
      unfold heldText
      rw [hsame.setSymbols]
    rw [eq_of_beq h.2, eq_of_beq h'.2] at htext
    simp at htext

end AssemblerIndex
