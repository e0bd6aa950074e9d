import AssemblerIndex.Proofs.Assembly.Balance
import AssemblerIndex.Proofs.Assembly.Bodies

/-!
# Where the listings stand

The processing stack is built from a position in open code, from the cursors of copy members and from the indices of
macro calls.  None of these says by itself that it is up to date; the listings that are being processed do, because each
but the innermost one stands right behind the statement by which the next one was entered.

* `executing` — the listings with the statements that are being executed in them;
* `StandsIn` — the frames of a statement in the body of a macro, told from the files that it came through, and
  `MacroDefinition.Traced`: the nests of a definition tell these frames;
* `Leads` — the stack that stands for the statements that are being executed;
* `Tracks` — the position, the cursors and the indices stand at these statements, so that the stack that is built from
  them is this one (`Tracks.leads`);
* `Ready` — what is left of this between two steps.
-/

namespace AssemblerIndex

open Assembly (Job nestedStatements)

/-! ### Statements that are being executed -/

/-- A listing that has entered another one stands behind the statement by which it did. -/
def Activation.back (p : Activation) : Activation := { p with index := p.index - 1 }

/-- The listings, each with the statement that is being executed in it: the next one in the innermost listing, and in
the others the one that entered the listing on top of it. -/
def executing : List Activation → List Activation
  | [] => []
  | p :: outer => p :: outer.map (·.back)

/-! ### The stacks that stand for them -/

/-- The statement is one of the file, which is that of open code or of a member of the library. -/
inductive Written (j : Job) : String → Statement → Prop
  | openCode {s : Statement} (h : s ∈ j.statements) : Written j j.file s
  | member {name : String} {found : LibraryMember} {s : Statement} (find : j.library.find? name = some found)
    (h : s ∈ statementsOf found.text.toList) : Written j found.uri s

/-- The frames of a statement of a file in the body of a macro: one in the macro, then one in each copy member that the
statement came from, outermost first.  Each but the last stands at the `COPY` that names the next member. -/
inductive StandsIn (j : Job) (called : String) : String → Statement → ProcessingStack → Prop
  | direct {file : String} {s : Statement} (h : Written j file s) :
    StandsIn j called file s [⟨.macroBody, some called, ⟨file, s.position⟩⟩]
  | copied {file name : String} {c s : Statement} {frames : ProcessingStack} {found : LibraryMember}
    (h : StandsIn j called file c frames) (copies : c.opcode = "COPY")
    (names : (NestedStatement.direct file c).copyName? = some name) (find : j.library.find? name = some found)
    (mem : s ∈ statementsOf found.text.toList) :
    StandsIn j called found.uri s (frames ++ [⟨.copy, some name, ⟨found.uri, s.position⟩⟩])

/-- The frames of open code and of the copy members that are open in it, outermost first. -/
inductive OpenFrames (j : Job) : List Activation → ProcessingStack → Prop
  | openCode {i : Nat} {s : Statement} (hs : j.statements[i]? = some s) :
    OpenFrames j [⟨.openCode j.statements j.file, i⟩] [⟨.openCode, none, ⟨j.file, s.position⟩⟩]
  | copy {outer : List Activation} {frames : ProcessingStack} {name : String} {found : LibraryMember} {i : Nat}
    {s : Statement} (h : OpenFrames j outer frames) (find : j.library.find? name = some found)
    (hs : (statementsOf found.text.toList)[i]? = some s) :
    OpenFrames j (⟨.copyMember (found.copyMember name), i⟩ :: outer)
      (frames ++ [⟨.copy, some name, ⟨found.uri, s.position⟩⟩])

/-- The stack that stands for the statements of the listings, which come innermost first: the frames of open code and
its copy members, then for each macro those of the statement of its body. -/
inductive Leads (j : Job) : List Activation → ProcessingStack → Prop
  | openCode {control : List Activation} {frames : ProcessingStack} (h : OpenFrames j control frames) :
    Leads j control frames
  | call {outer : List Activation} {frames body : ProcessingStack} {d : MacroDefinition} {i : Nat} {s : Statement}
    (h : Leads j outer frames) (hs : d.body[i]? = some s)
    (hbody : StandsIn j d.name (Activation.file ⟨.macroBody d, i⟩) s body) :
    Leads j (⟨.macroBody d, i⟩ :: outer) (frames ++ body)

section

variable {j : Job} {called file : String} {s : Statement} {frames : ProcessingStack} {control outer : List Activation}
  {p : Activation}

theorem StandsIn.written (h : StandsIn j called file s frames) : Written j file s := by
  cases h with
  | direct h => exact h
  | copied h copies names find mem => exact .member find mem

/-- The last frame of a statement stands at it. -/
theorem StandsIn.getLast? (h : StandsIn j called file s frames) :
    ∃ f, frames.getLast? = some f ∧ f.location = ⟨file, s.position⟩ := by
  cases h with
  | direct h => exact ⟨_, rfl, rfl⟩
  | copied h copies names find mem => exact ⟨_, List.getLast?_concat, rfl⟩

theorem OpenFrames.head? (h : OpenFrames j control frames) :
    ∃ i s, control.getLast? = some ⟨.openCode j.statements j.file, i⟩ ∧ j.statements[i]? = some s ∧
      frames.head? = some ⟨.openCode, none, ⟨j.file, s.position⟩⟩ := by
  induction h with
  | openCode hs => exact ⟨_, _, rfl, hs, rfl⟩
  | copy h find hs ih =>
    obtain ⟨i, s, hlast, hs, hhead⟩ := ih
    exact ⟨i, s, by rw [List.getLast?_cons, hlast, Option.getD_some], hs, by rw [List.head?_append, hhead]; rfl⟩

/-- The first frame is one of open code, at the statement that is being executed there. -/
theorem Leads.head? (h : Leads j control frames) :
    ∃ i s, control.getLast? = some ⟨.openCode j.statements j.file, i⟩ ∧ j.statements[i]? = some s ∧
      frames.head? = some ⟨.openCode, none, ⟨j.file, s.position⟩⟩ := by
  induction h with
  | openCode h => exact h.head?
  | call h hs hbody ih =>
    obtain ⟨i, s, hlast, hs, hhead⟩ := ih
    exact ⟨i, s, by rw [List.getLast?_cons, hlast, Option.getD_some], hs, by rw [List.head?_append, hhead]; rfl⟩

/-- The last frame stands at the statement that is being executed in the innermost listing. -/
theorem Leads.getLast? (h : Leads j (p :: outer) frames) (hs : p.statement? = some s) :
    Written j p.file s ∧ ∃ f, frames.getLast? = some f ∧ f.location = ⟨p.file, s.position⟩ := by
  generalize hc : p :: outer = control at h
  cases h with
  | openCode h =>
    cases h with
    | openCode hs' =>
      cases hc
      obtain rfl := Option.some.inj (hs.symm.trans hs')
      exact ⟨.openCode (Array.mem_of_getElem? hs), _, rfl, rfl⟩
    | copy h find hs' =>
      cases hc
      have hbody : ((statementsOf _).toArray)[_]? = some s := hs
      rw [List.getElem?_toArray] at hbody
      obtain rfl := Option.some.inj (hbody.symm.trans hs')
      exact ⟨.member find (List.mem_of_getElem? hs'), _, List.getLast?_concat, rfl⟩
  | call h hs' hbody =>
    cases hc
    obtain rfl := Option.some.inj (hs.symm.trans hs')
    obtain ⟨f, hf, hlocation⟩ := hbody.getLast?
    exact ⟨hbody.written, f, by rw [List.getLast?_append, hf]; rfl, hlocation⟩

end

/-! ### Nests -/

/-- The frames that a nest describes in the body of a macro. -/
def nestFrames (called : String) : List NestItem → ProcessingStack
  | [] => []
  | first :: rest => ⟨.macroBody, some called, first.location⟩ :: rest.map fun i => ⟨.copy, i.member, i.location⟩

/-- The nest tells the frames of the statement. -/
def NestedStatement.Traced (j : Job) (n : NestedStatement) : Prop :=
  ∀ called, StandsIn j called n.file n.statement (nestFrames called n.nest)

/-- The nests tell the frames of the statements of the body. -/
abbrev MacroDefinition.Traced (j : Job) (d : MacroDefinition) : Prop := d.Consists (NestedStatement.Traced j)

section

variable {j : Job} {n : NestedStatement}

theorem Invocation.frames_eq (i : Invocation) :
    i.frames = nestFrames i.definition.name (i.definition.nests[i.current]?.getD []) := by
  unfold Invocation.frames nestFrames
  cases i.definition.nests[i.current]? with
  | none => rfl
  | some nest => cases nest <;> rfl

theorem nestFrames_concat {nest : List NestItem} (h : nest ≠ []) (called : String) (i : NestItem) :
    nestFrames called (nest ++ [i]) = nestFrames called nest ++ [⟨.copy, i.member, i.location⟩] := by
  cases nest with
  | nil => exact absurd rfl h
  | cons first rest => simp [nestFrames]

theorem traced_direct {file : String} {s : Statement} (h : Written j file s) :
    (NestedStatement.direct file s).Traced j := fun _ => .direct h

theorem NestedStatement.Traced.nest_ne_nil (h : n.Traced j) : n.nest ≠ [] := by
  intro hnil
  obtain ⟨f, hf, -⟩ := (h "").getLast?
  rw [hnil] at hf
  cases hf

/-- Statements of the library are traced, and copied ones are if the `COPY` is. -/
theorem inherent_traced (j : Job) : Inherent j.library (NestedStatement.Traced j) where
  member find s hs := traced_direct (.member find hs)
  copied {n name found} h copies names find k hk called := by
    obtain ⟨s, hs, rfl⟩ := List.mem_map.1 hk
    have hfile : NestedStatement.file ⟨s, n.nest ++ [⟨⟨found.uri, s.position⟩, some name⟩]⟩ = found.uri := by
      unfold NestedStatement.file
      rw [List.getLast?_concat]
      rfl
    have hframes := nestFrames_concat h.nest_ne_nil called ⟨⟨found.uri, s.position⟩, some name⟩
    show StandsIn j called (NestedStatement.file ⟨s, n.nest ++ [⟨⟨found.uri, s.position⟩, some name⟩]⟩) s
      (nestFrames called (n.nest ++ [⟨⟨found.uri, s.position⟩, some name⟩]))
    rw [hfile, hframes]
    exact .copied (h called) copies names find (by simpa [LibraryMember.copyMember] using hs)

/-- The statement at an index of a body, with its nest. -/
theorem MacroDefinition.mem_nestedBody (d : MacroDefinition) {i : Nat} {s : Statement} (hs : d.body[i]? = some s) :
    ⟨s, d.nests[i]?.getD []⟩ ∈ d.nestedBody := by
  rw [MacroDefinition.nestedBody, List.mem_mapIdx]
  obtain ⟨hi, rfl⟩ := Array.getElem?_eq_some_iff.1 hs
  exact ⟨i, by simpa using hi, by simp⟩

/-- The frames of the statement at an index of a body. -/
theorem MacroDefinition.Traced.standsIn {d : MacroDefinition} (h : d.Traced j) {i : Nat} {s : Statement}
    (hs : d.body[i]? = some s) :
    StandsIn j d.name (Activation.file ⟨.macroBody d, i⟩) s (nestFrames d.name (d.nests[i]?.getD [])) := by
  have htraced := h _ (d.mem_nestedBody hs)
  have hfile : Activation.file ⟨.macroBody d, i⟩ = NestedStatement.file ⟨s, d.nests[i]?.getD []⟩ := by
    have hne := htraced.nest_ne_nil
    unfold Activation.file NestedStatement.file
    dsimp only
    cases hnest : d.nests[i]? with
    | none => simp [hnest] at hne
    | some nest =>
      rw [hnest, Option.getD_some] at hne
      simp [List.getLast?_eq_some_getLast hne]
  rw [hfile]
  exact htraced d.name

end

/-! ### Up to date -/

/-- The position in open code, the cursors and the calls stand at the statements of the listings. -/
inductive Tracks (j : Job) : List Activation → Location → List CopyCursor → List Invocation → Prop
  | openCode {i : Nat} {s : Statement} (hs : j.statements[i]? = some s) :
    Tracks j [⟨.openCode j.statements j.file, i⟩] ⟨j.file, s.position⟩ [] []
  | copy {outer : List Activation} {l : Location} {cs : List CopyCursor} {name : String} {found : LibraryMember}
    {i : Nat} {s : Statement} (h : Tracks j outer l cs []) (find : j.library.find? name = some found)
    (hs : (statementsOf found.text.toList)[i]? = some s) :
    Tracks j (⟨.copyMember (found.copyMember name), i⟩ :: outer) l (⟨found.copyMember name, i⟩ :: cs) []
  | call {outer : List Activation} {l : Location} {cs : List CopyCursor} {is : List Invocation} {c : Invocation}
    {s : Statement} (h : Tracks j outer l cs is) (traced : c.definition.Traced j)
    (hs : c.definition.body[c.current]? = some s) :
    Tracks j (⟨.macroBody c.definition, c.current⟩ :: outer) l cs (c :: is)

/-- What is up to date between two steps: in the listings below the innermost one the statements are still being
executed, and the innermost one has a position, a cursor or a call of its own. -/
inductive Ready (j : Job) : List Activation → Location → List CopyCursor → List Invocation → Prop
  | finished {l : Location} {cs : List CopyCursor} {is : List Invocation} : Ready j [] l cs is
  | openCode {l : Location} (i : Nat) (file : l.file = j.file) : Ready j [⟨.openCode j.statements j.file, i⟩] l [] []
  | copy {outer : List Activation} {l : Location} {cs : List CopyCursor} {name : String} {found : LibraryMember}
    (i n : Nat) (h : Tracks j (outer.map (·.back)) l cs []) (find : j.library.find? name = some found) :
    Ready j (⟨.copyMember (found.copyMember name), i⟩ :: outer) l (⟨found.copyMember name, n⟩ :: cs) []
  | call {outer : List Activation} {l : Location} {cs : List CopyCursor} {is : List Invocation} {c : Invocation}
    (i : Nat) (h : Tracks j (outer.map (·.back)) l cs is) (traced : c.definition.Traced j) :
    Ready j (⟨.macroBody c.definition, i⟩ :: outer) l cs (c :: is)

section

variable {j : Job} {control outer : List Activation} {p : Activation} {l : Location} {cs : List CopyCursor}
  {is : List Invocation}

/-- The frames that are built from the position and the cursors. -/
theorem Tracks.openFrames (h : Tracks j control l cs []) :
    OpenFrames j control (⟨.openCode, none, l⟩ :: cs.reverse.map fun c => ⟨.copy, some c.member.name, c.location⟩) := by
  generalize hnil : [] = is at h
  induction h with
  | openCode hs => exact .openCode hs
  | @copy outer l cs name found i s h find hs ih =>
    have hlocation : CopyCursor.location ⟨found.copyMember name, i⟩ = ⟨found.uri, s.position⟩ := by
      simp [CopyCursor.location, LibraryMember.copyMember, hs]
    rw [List.reverse_cons, List.map_append, List.map_singleton, hlocation, ← List.cons_append]
    exact .copy (ih rfl) find hs
  | call h traced hs ih => cases hnil

/-- **The stack that is built stands for the statements that are being executed.** -/
theorem Tracks.leads {base : Source} (h : Tracks j control base.location base.copyStack is) :
    Leads j control (processingStack base is.reverse []) := by
  unfold processingStack Source.frames
  rw [List.flatMap_nil, List.append_nil]
  generalize base.location = l, base.copyStack = cs at h
  induction h with
  | openCode hs =>
    simp only [List.reverse_nil, List.flatMap_nil, List.append_nil]
    exact .openCode (Tracks.openCode hs).openFrames
  | copy h find hs ih =>
    rw [List.reverse_nil, List.flatMap_nil, List.append_nil]
    exact .openCode (Tracks.copy h find hs).openFrames
  | @call outer l cs is c s h traced hs ih =>
    rw [List.reverse_cons, List.flatMap_append, List.flatMap_singleton, ← List.append_assoc, Invocation.frames_eq]
    exact .call ih hs (traced.standsIn hs)

/-- Wherever the innermost listing goes on, the others stay up to date. -/
theorem Tracks.ready (h : Tracks j (p :: outer.map (·.back)) l cs is) (i : Nat) :
    Ready j ({ p with index := i } :: outer) l cs is := by
  generalize hc : p :: outer.map (·.back) = control at h
  cases h with
  | openCode hs =>
    obtain ⟨rfl, hnil⟩ := List.cons.inj hc
    obtain rfl := List.map_eq_nil_iff.1 hnil
    exact .openCode i rfl
  | copy h find hs =>
    obtain ⟨rfl, rfl⟩ := List.cons.inj hc
    exact .copy i _ h find
  | call h traced hs =>
    obtain ⟨rfl, rfl⟩ := List.cons.inj hc
    exact .call i h traced

/-- The statements of the innermost listing are traced. -/
theorem Ready.traced (h : Ready j (p :: outer) l cs is) : ∀ n ∈ nestedStatements p, n.Traced j := by
  intro n hn
  cases h with
  | openCode i file =>
    obtain ⟨s, hs, rfl⟩ := List.mem_map.1 hn
    exact traced_direct (.openCode (Array.mem_toList_iff.1 (List.mem_of_mem_drop hs)))
  | copy i n h find =>
    obtain ⟨s, hs, rfl⟩ := List.mem_map.1 hn
    exact traced_direct (.member find (by
      simpa [Activation.statements, LibraryMember.copyMember] using List.mem_of_mem_drop hs))
  | call i h traced => exact traced n (List.mem_of_mem_drop hn)

/-- Behind the innermost listing the next one goes on behind the statement that it was executing. -/
theorem Tracks.ready_outer (h : Tracks j (outer.map (·.back)) l cs is) : Ready j outer l cs is := by
  cases outer with
  | nil => exact .finished
  | cons q rest => exact Tracks.ready (p := q.back) h q.index

end

end AssemblerIndex
