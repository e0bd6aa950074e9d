import AssemblerIndex.Proofs.Assembly.CopyDepth
import AssemblerIndex.Proofs.Assembly.Core
import AssemblerIndex.Proofs.Assembly.Simulation

/-!
# What statements do to the core

Names that are met, copy members that are loaded, labels and declarations leave the core as it is.  Where the tables are
in order the core says more than it holds: an attribute reference does not depend on the names that have been met
(`symbolAttribute_knownName`), and a copy statement does what the library says, whether the member has been loaded
before or not (`copy_eq`).
-/

namespace AssemblerIndex.Assembly

variable {a b : Assembly}

theorem core_loads (h : a.Loads b) : b.core = a.core := by
  rw [h.frame]
  rfl

/-! ### Expressions -/

/-- An attribute reference need not ask whether a name has been met: one that has not stands for
nothing. -/
theorem symbolAttribute_knownName (ha : a.Sound) (kind : Attribute) (name : String) :
    a.context.symbolAttribute kind (Expression.knownName a.context name) =
      a.context.symbolAttribute kind name := by
  unfold Expression.knownName
  split
  · rfl
  · rename_i hn
    have hmet : name ∉ a.context.names := hn
    have symbol : a.context.symbols.find? name = none := by
      cases hs : a.context.symbols.find? name with
      | none => rfl
      | some s => exact absurd (ha.symbolName hs).2 hmet
    have noSymbol : a.context.symbols.find? "" = none := by
      cases hs : a.context.symbols.find? "" with
      | none => rfl
      | some s => exact absurd rfl (ha.symbolName hs).1
    have opcode : a.context.opcodeType "" = a.context.opcodeType name := by
      have hfree : a.context.macros.contains name = false := by
        unfold Table.contains
        cases hs : a.context.macros.find? name with
        | none => rfl
        | some d => exact absurd (ha.macroName hs).2.2 hmet
      have noMacro : a.context.macros.contains "" = false := by
        unfold Table.contains
        cases hs : a.context.macros.find? "" with
        | none => rfl
        | some d => exact absurd rfl (ha.macroName hs).2.1
      have hinstruction : instructionKind? name = none := by
        cases hs : instructionKind? name with
        | none => rfl
        | some k => exact absurd (ha.instructionName hs) hmet
      have noInstruction : instructionKind? "" = none := by decide +kernel
      unfold Context.opcodeType
      rw [hfree, noMacro, hinstruction, noInstruction]
    unfold Context.symbolAttribute Context.symbolType
    rw [symbol, noSymbol, opcode]

/-! ### Symbols -/

theorem core_declaration (a : Assembly) (p : Activation) (name : String) (type : SetType)
    (isGlobal : Bool) (pos : Position) : (a.declaration p name type isGlobal pos).core = a.core := by
  unfold declaration
  split <;> rfl

theorem core_mapSymbols (h : a.core = b.core) {f g : SymbolTable → SymbolTable}
    (hfg : (f a.context.symbols).core = (g b.context.symbols).core) :
    (a.mapSymbols f).core = (b.mapSymbols g).core := by
  obtain ⟨h1, h2, h3, h4⟩ := core_eq_iff.1 h
  refine core_eq_iff.2 ⟨?_, h2, h3, h4⟩
  show ({ a.context.core with symbols := (f a.context.symbols).core } : Context) =
    { b.context.core with symbols := (g b.context.symbols).core }
  rw [h1, hfg]

theorem equateLength_core (t : SymbolTable) (s : Statement) (first : Field) :
    equateLength t.core s first = equateLength t s first := by
  unfold equateLength SymbolTable.named?
  rw [SymbolTable.find?_core]
  cases operandTerm? s 1 with
  | some n => rfl
  | none => cases t.find? (String.ofList (Text.upperChars first.text)) <;> rfl

/-! ### Copy members -/

theorem core_copyMember? (a : Assembly) (name : String) : (a.copyMember? name).1.core = a.core :=
  core_loads (loads_copyMember? ..)

/-- The copy member of a name is that of the library, whether it has been loaded before or not. -/
theorem snd_copyMember? {a : Assembly} (ha : a.Sound) (name : String) :
    (a.copyMember? name).2 = (a.library.find? name).map (·.copyMember name) := by
  unfold copyMember?
  dsimp only
  split
  · rename_i m hm
    obtain ⟨f, hf, hmem⟩ := ha.copyMember hm
    rw [hf, hmem]
    rfl
  · rw [show (a.meet [name]).library = a.library from rfl]
    cases a.library.find? name <;> rfl

/-- The same copy members are open in the only source. -/
structure SameOpen (a b : Assembly) : Prop where
  left : a.context.sources = []
  right : b.context.sources = []
  members : a.context.openCopyMembers = b.context.openCopyMembers

theorem SameOpen.of_stays {a' b' : Assembly} (h : SameOpen a b) (ha : a.Stays a') (hb : b.Stays b') :
    SameOpen a' b' where
  left := ha.sources.trans h.left
  right := hb.sources.trans h.right
  members := by rw [openCopyMembers_of_stays ha, openCopyMembers_of_stays hb, h.members]

theorem core_opened (h : a.context.sources = []) (m : CopyMember) : (a.opened m).core = a.core := by
  rw [opened_of_nil h]
  rfl

/-- The member of the library that a copy statement opens, if it names one that is not open. -/
def closedMember? (a : Assembly) (name : String) : Option LibraryMember :=
  (a.library.find? name).filter fun _ => !a.context.openCopyMembers.contains name

/-- What a copy statement does, in terms of the library. -/
theorem copy_eq (ha : a.Sound) {s : Statement} {o : Field} {rest : List Field}
    (hs : s.operands = o :: rest) (ho : o.text ≠ []) {name : String}
    (hname : String.ofList (Text.upperChars o.text) = name) :
    a.copy s = match a.closedMember? name with
      | some found => ((a.copyMember? name).1.opened (found.copyMember name),
          .enter (.copyMember (found.copyMember name)))
      | none => ((a.copyMember? name).1, .next) := by
  obtain ⟨text, span⟩ := o
  cases text with
  | nil => exact absurd rfl ho
  | cons c cs =>
    have hm := snd_copyMember? ha name
    have htable := @find?_of_copyMember? a ha name
    have hopen := openCopyMembers_of_stays (spares_copyMember? a name).toStays
    unfold copy closedMember?
    rw [hs]
    dsimp only at hname ⊢
    rw [hname]
    generalize a.copyMember? name = u at hm htable hopen ⊢
    obtain ⟨a', m⟩ := u
    dsimp only at hm htable hopen ⊢
    subst hm
    cases hfind : a.library.find? name with
    | none => rfl
    | some found =>
      have htable := (htable (m := found.copyMember name) (by rw [hfind]; rfl)).2
      have henter : a'.context.enterCopy name = .ok (a'.opened (found.copyMember name)).context := by
        unfold Context.enterCopy
        rw [htable]
        rfl
      dsimp only [Option.map_some]
      rw [hopen, show (found.copyMember name).name = name from rfl, henter]
      cases a.context.openCopyMembers.contains name <;> rfl

/-! ### Macros -/

theorem register_core (a : Assembly) (r : MacroRecord) :
    (a.register r).1.core = { a.core with context := (a.core.context.addMacro r.definition).1 } ∧
      (a.register r).2 = (a.core.context.addMacro r.definition).2 := by
  unfold register
  dsimp only
  split <;> exact ⟨rfl, rfl⟩

theorem register_congr (h : a.core = b.core) {r q : MacroRecord} (hd : r.definition = q.definition) :
    (a.register r).1.core = (b.register q).1.core ∧ (a.register r).2 = (b.register q).2 := by
  obtain ⟨h1, h2⟩ := register_core a r
  obtain ⟨h3, h4⟩ := register_core b q
  rw [h1, h2, h3, h4, h, hd]
  exact ⟨rfl, rfl⟩

theorem sound_callMacro {d : MacroDefinition} (ha : a.Sound) (hd : a.context.macros.find? d.name = some d)
    (s : Statement) : (a.callMacro d s).1.Sound := by
  generalize hr : a.callMacro d s = r
  obtain ⟨b, flow⟩ := r
  rcases callMacro_cases hd hr with ⟨-, hb⟩ | ⟨-, -, a', c, hb, rfl, -, -⟩
  · exact hb.sound ha
  · exact (hb.sound ha).of_names rfl fun _ => id

/-! ### Labels -/

theorem core_noteLabel (a : Assembly) (file : String) (index : Nat) (s : Statement) :
    (a.noteLabel file index s).core = a.core := by
  unfold noteLabel attempt
  split
  · rfl
  · split
    · rename_i x hx
      have hx := Context.core_addSequenceSymbol hx
      exact core_eq_iff.2 ⟨hx, rfl, rfl, rfl⟩
    · rfl

theorem core_noteStatement (a : Assembly) (p : Activation) (s : Statement) :
    (a.noteStatement p s).core = ((a.noteLabel p.file p.index s).macro? s.opcode).1.core := by
  unfold noteStatement
  dsimp only
  generalize (a.noteLabel p.file p.index s).macro? s.opcode = r
  rfl

end AssemblerIndex.Assembly
