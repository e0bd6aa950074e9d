import AssemblerIndex.Proofs.Macro.Sublists
import AssemblerIndex.Macro
import Mathlib.Data.List.Nodup

/-!
# Arguments of macro calls

A call goes through the arguments once, to tell those that count by their place from those that count by their
keyword, and then through the parameters, each of which enters its own variable.  Since the names of the parameters
are distinct, no variable is entered twice.

* `MacroDefinition.TakesByKeyword` — the argument counts by its keyword;
* `MacroDefinition.placed` — what the other arguments are, in order;
* `lastGiven` — what the last argument with a keyword is;
* `arguments_bind` — **which argument each parameter and each subscript of the list of arguments reads**.
-/

namespace AssemblerIndex

/-! ### The two kinds of arguments -/

namespace MacroDefinition

variable (d : MacroDefinition)

/-- The argument has the keyword of a keyword parameter. -/
def TakesByKeyword (a : Argument) : Prop := ∃ p ∈ d.parameters, p.isKeyword = true ∧ a.keyword = some p.name

instance (a : Argument) : Decidable (d.TakesByKeyword a) := inferInstanceAs (Decidable (∃ _ ∈ _, _))

theorem hasKeyword_iff {k : String} : d.hasKeyword k = true ↔ ∃ p ∈ d.parameters, p.isKeyword = true ∧ k = p.name := by
  simp only [hasKeyword, keywordParameters, List.any_eq_true, List.mem_filter, beq_iff_eq]
  exact ⟨fun ⟨p, ⟨hp, hk⟩, h⟩ => ⟨p, hp, hk, h.symm⟩, fun ⟨p, hp, hk, h⟩ => ⟨p, ⟨hp, hk⟩, h.symm⟩⟩

end MacroDefinition

/-- What an argument is that counts by its place: a keyword that it has is part of its text. -/
def Argument.placedData (a : Argument) : MacroData :=
  match a.keyword with
  | none => a.data
  | some k => .single (k.toList ++ '=' :: a.data.text)

/-- The arguments that count by their place, in order. -/
def MacroDefinition.placed (d : MacroDefinition) (args : List Argument) : List MacroData :=
  (args.filter fun a => !decide (d.TakesByKeyword a)).map Argument.placedData

/-- What the last argument with a keyword is. -/
def lastGiven (args : List Argument) (k : String) : Option MacroData :=
  (args.filter (·.keyword = some k)).getLast?.map (·.data)

namespace MacroDefinition

variable (d : MacroDefinition)

theorem positionalData?_eq (a : Argument) :
    d.positionalData? a = if d.TakesByKeyword a then none else some a.placedData := by
  unfold positionalData? Argument.placedData
  cases hk : a.keyword with
  | none => simp [TakesByKeyword, hk]
  | some k => simp [TakesByKeyword, hk, hasKeyword_iff]

theorem filterMap_positionalData? (args : List Argument) : args.filterMap d.positionalData? = d.placed args := by
  induction args with
  | nil => rfl
  | cons a args ih =>
    rw [List.filterMap_cons, ih, positionalData?_eq, placed, placed]
    by_cases h : d.TakesByKeyword a <;> simp [h]

theorem find?_ofList_keywordData? {k : String} (hk : d.hasKeyword k = true) (args : List Argument) :
    (Table.ofList (args.filterMap d.keywordData?)).find? k = lastGiven args k := by
  induction args using List.reverseRecOn with
  | nil => rfl
  | append_singleton args a ih =>
    rw [List.filterMap_append, lastGiven, List.filter_append]
    by_cases h : a.keyword = some k
    · have hdata : d.keywordData? a = some (k, a.data) := by simp [keywordData?, h, hk]
      simp [hdata, h, Table.ofList_concat]
    · have hother : ∀ e, d.keywordData? a = some e → e.1 ≠ k := by
        intro e he
        unfold keywordData? at he
        split at he
        · simp at he
        · rename_i hkeyword
          split at he
          · cases he
            rintro rfl
            exact h hkeyword
          · simp at he
      cases hdata : d.keywordData? a with
      | none => simpa [hdata, h, lastGiven] using ih
      | some e => simpa [hdata, h, lastGiven, Table.ofList_concat, (hother e hdata).symm] using ih

/-! ### Entering the variables -/

theorem find?_bindPositional_of_notMem {n : String} {ps : List Parameter} (hn : n ∉ ps.map (·.name))
    (t : Table Variable) (position : Nat) (args : List MacroData) :
    (bindPositional t position ps args).find? n = t.find? n := by
  induction ps generalizing t position args with
  | nil => rfl
  | cons p ps ih =>
    rw [List.map_cons, List.mem_cons, not_or] at hn
    rw [bindPositional, ih hn.2, Table.find?_insert, if_neg hn.1]

theorem find?_bindPositional {ps : List Parameter} (hps : (ps.map (·.name)).Nodup) {i : Nat} {p : Parameter}
    (hp : ps[i]? = some p) (t : Table Variable) (position : Nat) (args : List MacroData) :
    (bindPositional t position ps args).find? p.name =
      some (.positional (position + i) (args[i]?.getD .absent)) := by
  induction ps generalizing i t position args with
  | nil => simp at hp
  | cons q ps ih =>
    obtain ⟨hq, hps⟩ := List.nodup_cons.1 hps
    rw [bindPositional]
    cases i with
    | zero =>
      obtain rfl : q = p := by simpa using hp
      rw [find?_bindPositional_of_notMem hq, Table.find?_insert, if_pos rfl, List.headD_eq_head?_getD,
        List.head?_eq_getElem?]
      rfl
    | succ i =>
      rw [ih hps (by simpa using hp), List.getElem?_tail, Nat.add_right_comm]
      rfl

theorem find?_bindKeywords_of_notMem {n : String} {ps : List Parameter} (hn : n ∉ ps.map (·.name))
    (t : Table Variable) (given : Table MacroData) : (bindKeywords t ps given).find? n = t.find? n := by
  induction ps generalizing t given with
  | nil => rfl
  | cons p ps ih =>
    rw [List.map_cons, List.mem_cons, not_or] at hn
    rw [bindKeywords, ih hn.2, Table.find?_insert, if_neg hn.1]

theorem find?_bindKeywords {ps : List Parameter} (hps : (ps.map (·.name)).Nodup) {p : Parameter} (hp : p ∈ ps)
    (t : Table Variable) (given : Table MacroData) :
    (bindKeywords t ps given).find? p.name =
      some (.keyword (p.default.getD .absent) (given.find? p.name)) := by
  induction ps generalizing t given with
  | nil => simp at hp
  | cons q ps ih =>
    obtain ⟨hq, hps⟩ := List.nodup_cons.1 hps
    rw [bindKeywords]
    rcases List.mem_cons.1 hp with rfl | hp
    · rw [find?_bindKeywords_of_notMem hq, Table.find?_insert, if_pos rfl]
    · have hne : p.name ≠ q.name := by
        intro h
        exact hq (List.mem_map.2 ⟨p, hp, h⟩)
      rw [ih hps hp, Table.find?_erase, if_neg hne]

/-! ### The variables of a call -/

/-- The names of the parameters, that of the label first. -/
def parameterNames : List String := d.labelParameter.toList ++ d.parameters.map (·.name)

/-- The variables are the parameters and the list of arguments, and none hides another. -/
structure Distinct : Prop where
  names : d.parameterNames.Nodup
  sysList : "SYSLIST" ∉ d.parameterNames

instance : Decidable d.Distinct :=
  decidable_of_iff (d.parameterNames.Nodup ∧ "SYSLIST" ∉ d.parameterNames) ⟨fun h => ⟨h.1, h.2⟩, fun h => ⟨h.1, h.2⟩⟩

end MacroDefinition

/-- What the subscripts of a parameter of the call lead to. -/
def Invocation.data? (v : Invocation) (name : String) (subscripts : List Nat) : Option MacroData :=
  (v.parameters.find? name).bind (·.dataAt subscripts)

namespace MacroDefinition

variable {d : MacroDefinition}

theorem Distinct.parameters (h : d.Distinct) : (d.parameters.map (·.name)).Nodup := (List.nodup_append.1 h.names).2.1

theorem Distinct.positionalParameters (h : d.Distinct) : (d.positionalParameters.map (·.name)).Nodup :=
  h.parameters.sublist (List.filter_sublist.map _)

theorem Distinct.keywordParameters (h : d.Distinct) : (d.keywordParameters.map (·.name)).Nodup :=
  h.parameters.sublist (List.filter_sublist.map _)

theorem Distinct.eq_of_name (h : d.Distinct) {p q : Parameter} (hp : p ∈ d.parameters) (hq : q ∈ d.parameters)
    (hname : p.name = q.name) : p = q :=
  List.inj_on_of_nodup_map h.parameters hp hq hname

theorem Distinct.name_ne_sysList (h : d.Distinct) {p : Parameter} (hp : p ∈ d.parameters) : p.name ≠ "SYSLIST" := by
  intro hname
  exact h.sysList (List.mem_append_right _ (List.mem_map.2 ⟨p, hp, hname⟩))

theorem Distinct.labelParameter_ne (h : d.Distinct) {l : String} (hl : d.labelParameter = some l) {p : Parameter}
    (hp : p ∈ d.parameters) : l ≠ p.name :=
  (List.nodup_append.1 h.names).2.2 l (by simp [hl]) p.name (List.mem_map_of_mem hp)

/-- A positional parameter has its place and what stands there. -/
theorem find?_call_positional (h : d.Distinct) {i : Nat} {p : Parameter} (hp : d.positionalParameters[i]? = some p)
    (label : Option MacroData) (args : List Argument) :
    (d.call label args).parameters.find? p.name =
      some (.positional (i + 1) ((d.placed args)[i]?.getD .absent)) := by
  have hmem : p ∈ d.parameters ∧ p.isKeyword = false := by
    simpa [positionalParameters] using List.mem_of_getElem? hp
  have hkeyword : p.name ∉ d.keywordParameters.map (·.name) := by
    intro hk
    obtain ⟨q, hq, hname⟩ := List.mem_map.1 hk
    obtain ⟨hq, hqk⟩ := List.mem_filter.1 hq
    rw [h.eq_of_name hq hmem.1 hname, hmem.2] at hqk
    cases hqk
  simp only [call, filterMap_positionalData?, Table.find?_insert, if_neg (h.name_ne_sysList hmem.1),
    find?_bindKeywords_of_notMem hkeyword, find?_bindPositional h.positionalParameters hp, Nat.add_comm 1 i]

/-- A keyword parameter has its default and what was given last. -/
theorem find?_call_keyword (h : d.Distinct) {p : Parameter} {default : MacroData} (hp : p ∈ d.parameters)
    (hdefault : p.default = some default) (label : Option MacroData) (args : List Argument) :
    (d.call label args).parameters.find? p.name = some (.keyword default (lastGiven args p.name)) := by
  have hk : p ∈ d.keywordParameters := List.mem_filter.2 ⟨hp, by simp [Parameter.isKeyword, hdefault]⟩
  have hknown : d.hasKeyword p.name = true := List.any_eq_true.2 ⟨p, hk, by simp⟩
  simp only [call, Table.find?_insert, if_neg (h.name_ne_sysList hp), find?_bindKeywords h.keywordParameters hk,
    find?_ofList_keywordData? d hknown, hdefault, Option.getD_some]

theorem find?_call_label (h : d.Distinct) {l : String} (hl : d.labelParameter = some l) (label : Option MacroData)
    (args : List Argument) :
    (d.call label args).parameters.find? l = some (.positional 0 (label.getD .absent)) := by
  have hne : ∀ ps : List Parameter, ps ⊆ d.parameters → l ∉ ps.map (·.name) := by
    intro ps hps hmem
    obtain ⟨p, hp, hname⟩ := List.mem_map.1 hmem
    exact h.labelParameter_ne hl (hps hp) hname.symm
  have hsys : l ≠ "SYSLIST" := by
    rintro rfl
    exact h.sysList (by simp [parameterNames, hl])
  have hpositional : l ∉ d.positionalParameters.map (·.name) := hne _ (List.filter_subset_self _)
  have hkeyword : l ∉ d.keywordParameters.map (·.name) := hne _ (List.filter_subset_self _)
  simp only [call, hl, Table.find?_insert, if_neg hsys, find?_bindKeywords_of_notMem hkeyword,
    find?_bindPositional_of_notMem hpositional, if_pos]

theorem find?_call_sysList (d : MacroDefinition) (label : Option MacroData) (args : List Argument) :
    (d.call label args).parameters.find? "SYSLIST" =
      some (.sysList (.composite (label.getD .absent :: d.placed args))) := by
  simp only [call, filterMap_positionalData?, Table.find?_insert, if_pos]

/-- **Arguments bind to parameters.**  A parameter without a default reads the argument at its place among those that
count by their place, one with a default what the last argument with its keyword is.  The list of arguments holds the
label and then the same arguments, and counts the label as its zeroth. -/
theorem arguments_bind (h : d.Distinct) (label : Option MacroData) (args : List Argument) :
    let v := d.call label args
    (∀ (i : Nat) (p : Parameter), d.positionalParameters[i]? = some p → ∀ subscripts,
        v.data? p.name subscripts = some (((d.placed args)[i]?.getD .absent).subscripted subscripts)) ∧
      (∀ p ∈ d.parameters, ∀ default, p.default = some default → ∀ subscripts,
        v.data? p.name subscripts = some (((lastGiven args p.name).getD default).subscripted subscripts)) ∧
      (∀ l, d.labelParameter = some l → ∀ subscripts,
        v.data? l subscripts = some ((label.getD .absent).subscripted subscripts)) ∧
      (∀ subscripts, v.data? "SYSLIST" (0 :: subscripts) = some ((label.getD .absent).subscripted subscripts)) ∧
      (∀ i subscripts, v.data? "SYSLIST" ((i + 1) :: subscripts) =
        some (((d.placed args)[i]?.getD .absent).subscripted subscripts)) ∧
      (v.parameters.find? "SYSLIST").map (·.number []) = some (Int32.ofNat (d.placed args).length) := by
  intro v
  refine ⟨fun i p hp subscripts => ?_, fun p hp default hdefault subscripts => ?_, fun l hl subscripts => ?_,
    fun subscripts => ?_, fun i subscripts => ?_, ?_⟩
  · rw [Invocation.data?, find?_call_positional h hp]
    rfl
  · rw [Invocation.data?, find?_call_keyword h hp hdefault]
    rfl
  · rw [Invocation.data?, find?_call_label h hl]
    rfl
  · rw [Invocation.data?, find?_call_sysList]
    rfl
  · rw [Invocation.data?, find?_call_sysList]
    rfl
  · rw [find?_call_sysList]
    rfl

/-- The parameters of both kinds and the arguments of both kinds alternate, one keyword is given twice and one is not
known. -/
theorem arguments_bind_of_mixed_call :
    let d : MacroDefinition :=
      { (default : MacroDefinition) with
        labelParameter := some "L"
        parameters := [⟨"K", some (.single ['0'])⟩, ⟨"P", none⟩, ⟨"M", some .absent⟩, ⟨"Q", none⟩] }
    let list := MacroData.composite [.absent, .single ['7']]
    let args : List Argument :=
      [⟨some "K", .single ['1']⟩, ⟨none, .single ['A']⟩, ⟨some "X", .single ['2']⟩, ⟨some "K", .single ['3']⟩,
        ⟨none, list⟩]
    let v := d.call none args
    d.Distinct ∧ v.data? "K" [] = some (.single ['3']) ∧ v.data? "M" [] = some .absent ∧
      v.data? "Q" [] = some (.single ['X', '=', '2']) ∧ v.data? "L" [] = some .absent ∧
      v.data? "SYSLIST" [3, 2] = some (.single ['7']) ∧
      (v.parameters.find? "SYSLIST").map (·.number []) = some 3 := by
  intro d list args v
  have hd : d.Distinct := by decide +kernel
  obtain ⟨hplace, hkeyword, hlabel, -, hlist, hnumber⟩ := arguments_bind hd none args
  have hk : (⟨"K", some (.single ['0'])⟩ : Parameter) ∈ d.parameters := .head _
  have hm : (⟨"M", some .absent⟩ : Parameter) ∈ d.parameters := .tail _ (.tail _ (.head _))
  exact ⟨hd, hkeyword _ hk _ rfl [], hkeyword _ hm _ rfl [], hplace 1 ⟨"Q", none⟩ rfl [], hlabel "L" rfl [],
    hlist 2 [2], hnumber⟩

end MacroDefinition

end AssemblerIndex
