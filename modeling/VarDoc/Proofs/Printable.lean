import VarDoc.Form.Printer
import VarDoc.Proofs.Grammar
import VarDoc.Proofs.Lexing

/-! Forms that can be printed so that their atoms and tags are lexed back. All
forms that source text derives are of this kind, since what is printed of an
atom is what it was lexed from, apart from strings. -/

set_option autoImplicit false

namespace VarDoc

def escaped (text : List Char) : List Char := text.flatMap fun c => (escapeCharacter c).toList

theorem escapeCharacter_cases (c : Char) :
    ((escapeCharacter c).toList = [c] ∧ c ≠ '"' ∧ c ≠ '\\') ∨
      ∃ letter, (escapeCharacter c).toList = ['\\', letter] ∧ simpleEscape? letter = some c := by
  unfold escapeCharacter
  split
  · exact .inr ⟨'"', rfl, rfl⟩
  · exact .inr ⟨'\\', rfl, rfl⟩
  · exact .inr ⟨'n', rfl, rfl⟩
  · exact .inr ⟨'t', rfl, rfl⟩
  · exact .inr ⟨'r', rfl, rfl⟩
  next notQuote notBackslash _ _ _ =>
    exact .inl ⟨by simp [Char.toString], notQuote, notBackslash⟩

theorem closingQuote_plain {c : Char} (notQuote : c ≠ '"') (notBackslash : c ≠ '\\')
    (rest : List Char) : closingQuote (c :: rest) = (closingQuote rest).map (· + 1) := by
  rw [closingQuote]
  · exact notQuote
  · exact fun _ _ same => absurd same notBackslash
  · exact fun same => absurd same notBackslash

/-- A printed string closes at its last quote and no earlier. -/
theorem closingQuote_escaped (text : List Char) :
    closingQuote (escaped text ++ ['"']) = some (escaped text ++ ['"']).length := by
  induction text with
  | nil => rfl
  | cons c text ih =>
    rw [escaped, List.flatMap_cons, ← escaped, List.append_assoc]
    rcases escapeCharacter_cases c with ⟨plain, notQuote, notBackslash⟩ | ⟨letter, pair, -⟩
    · rw [plain, List.cons_append, closingQuote_plain notQuote notBackslash, List.nil_append, ih]
      rfl
    · rw [pair, List.cons_append, List.cons_append, closingQuote, List.nil_append, ih]
      rfl

theorem unescapeFrom_escaped (text : List Char) : unescapeFrom 0 (escaped text) = .ok text := by
  induction text with
  | nil => rfl
  | cons c text ih =>
    rw [escaped, List.flatMap_cons, ← escaped]
    rcases escapeCharacter_cases c with ⟨plain, -, notBackslash⟩ | ⟨letter, pair, denotes⟩
    · simp only [plain, List.cons_append, List.nil_append, unescapeFrom, if_neg notBackslash, ih]
      rfl
    · have read : readEscape? letter (escaped text) = some (c, 1) := by
        rw [readEscape?, denotes]
      simp only [pair, List.cons_append, List.nil_append, unescapeFrom, if_true, read, ih]
      rfl

/-- What is printed of the atom is one token, which is the atom again. -/
def Atom.Printable (leaf : Atom) : Prop :=
  ∃ kind, Spelled kind leaf.render.toList ∧ ∀ span, Token.atom? ⟨kind, span, leaf.render⟩ = some leaf

theorem Atom.string_render (text : String) :
    (Atom.string text).render = String.ofList ('"' :: (escaped text.toList ++ ['"'])) := by
  rw [← String.toList_inj]
  simp [Atom.render, escaped, List.flatMap_def, Function.comp_def]

theorem Atom.string_printable (text : String) : (Atom.string text).Printable := by
  refine ⟨.string, ?_, fun span => ?_⟩
  · rw [string_render, String.toList_ofList]
    exact spelled_string (closingQuote_escaped _)
  · have inside : lexemeInside 1 (Atom.string text).render = String.ofList (escaped text.toList) := by
      rw [lexemeInside, string_render, String.toList_ofList, List.drop_succ_cons, List.drop_zero,
        List.dropLast_concat]
    have denotes : unescape (lexemeInside 1 (Atom.string text).render) = .ok text := by
      rw [inside, unescape, String.toList_ofList, unescapeFrom_escaped]
      simp [Except.map]
    rw [Token.atom?]
    simp only [denotes]
    rfl

theorem symbolAtom_render (lexeme : String) : (symbolAtom lexeme).render = lexeme := by
  unfold symbolAtom
  split
  next same => rw [same]; rfl
  split
  next same => rw [same]; rfl
  split
  next same => rw [same]; rfl
  next => rfl

theorem Token.render_atom? {token : Token} {leaf : Atom}
    (spelled : Spelled token.kind token.lexeme.toList) (denotes : token.atom? = some leaf)
    (notString : token.kind ≠ .string) : leaf.render = token.lexeme := by
  obtain ⟨kind, span, lexeme⟩ := token
  rw [← String.toList_inj]
  cases kind with
  | symbolicValue =>
    cases denotes
    obtain ⟨name, same⟩ := spelled.symbolicValue
    simp_all [Atom.render, lexemeAfter]
  | regex =>
    cases denotes
    obtain ⟨body, same⟩ := spelled.regex
    simp_all [Atom.render, lexemeInside]
  | character =>
    cases denotes
    obtain ⟨name, same⟩ := spelled.character
    simp_all [Atom.render, lexemeAfter]
  | number =>
    cases denotes
    rfl
  | keyword =>
    cases denotes
    obtain ⟨name, same, -⟩ := spelled_keyword_iff.1 spelled
    simp_all [Atom.render, lexemeAfter]
  | symbol =>
    cases denotes
    rw [symbolAtom_render]
  | string => exact absurd rfl notString
  | _ => contradiction

theorem Token.string_of_atom? {span : Span} {lexeme : String} {leaf : Atom}
    (denotes : Token.atom? ⟨.string, span, lexeme⟩ = some leaf) : ∃ text, leaf = .string text := by
  rw [Token.atom?] at denotes
  obtain ⟨text, -, rfl⟩ := Option.map_eq_some_iff.1 denotes
  exact ⟨text, rfl⟩

theorem Token.printable_of_atom? {token : Token} {leaf : Atom}
    (spelled : Spelled token.kind token.lexeme.toList) (denotes : token.atom? = some leaf) :
    leaf.Printable := by
  by_cases string : token.kind = .string
  · obtain ⟨kind, span, lexeme⟩ := token
    subst string
    obtain ⟨text, rfl⟩ := string_of_atom? denotes
    exact Atom.string_printable text
  · have rendered := render_atom? spelled denotes string
    exact ⟨token.kind, rendered ▸ spelled, fun span => rendered ▸ denotes⟩

def Mark.Printable : Mark → Prop
  | .sigil _ => True
  | .tag name => Spelled .tagged ('#' :: name.toList)

inductive Form.Printable : Form → Prop where
  | atom {leaf : Atom} {span : Span} {metadata : List (Form × Form)} (leafPrintable : leaf.Printable) :
    Printable (.atom leaf span metadata)
  | group {shape : Shape} {items : List Form} {span : Span} {metadata : List (Form × Form)}
    (itemsPrintable : ∀ item ∈ items, Printable item) : Printable (.group shape items span metadata)
  | map {entries : List (Form × Form)} {span : Span} {metadata : List (Form × Form)}
    (keysPrintable : ∀ entry ∈ entries, Printable entry.1)
    (valuesPrintable : ∀ entry ∈ entries, Printable entry.2) : Printable (.map entries span metadata)
  | marked {mark : Mark} {inner : Form} {span : Span} {metadata : List (Form × Form)}
    (markPrintable : mark.Printable) (innerPrintable : Printable inner) :
    Printable (.marked mark inner span metadata)

theorem Token.printable_of_mark? {token : Token} {mark : Mark}
    (spelled : Spelled token.kind token.lexeme.toList) (marks : token.mark? = some mark) :
    mark.Printable := by
  obtain ⟨kind, span, lexeme⟩ := token
  cases kind with
  | sigil sigil =>
    cases marks
    trivial
  | tagged =>
    cases marks
    obtain ⟨name, same⟩ := spelled.tagged
    simp_all [Mark.Printable, lexemeAfter]
  | _ => contradiction

theorem Form.Printable.withMetadata {form : Form} (printable : form.Printable) (start : Span)
    (entries : List (Form × Form)) : (form.withMetadata start entries).Printable := by
  cases printable with
  | atom leafPrintable => exact .atom leafPrintable
  | group itemsPrintable => exact .group itemsPrintable
  | map keysPrintable valuesPrintable => exact .map keysPrintable valuesPrintable
  | marked markPrintable innerPrintable => exact .marked markPrintable innerPrintable

theorem Token.kind_of_keyword {token : Token} {name : String}
    (denotes : token.atom? = some (.keyword name)) : token.kind = .keyword := by
  obtain ⟨kind, span, lexeme⟩ := token
  cases kind with
  | keyword => rfl
  | symbol =>
    have symbol : symbolAtom lexeme = .keyword name := Option.some.inj denotes
    unfold symbolAtom at symbol
    split at symbol
    · contradiction
    split at symbol
    · contradiction
    split at symbol <;> contradiction
  | string =>
    obtain ⟨text, impossible⟩ := string_of_atom? denotes
    cases impossible
  | _ => simp [atom?] at denotes

theorem Atom.keyword_printable_iff {name : String} :
    (Atom.keyword name).Printable ↔
      name.toList ≠ [] ∧ ∀ c ∈ name.toList, isConstituent c = true := by
  have rendered : (Atom.keyword name).render.toList = ':' :: name.toList := by simp [Atom.render]
  constructor
  · rintro ⟨kind, spelled, denotes⟩
    obtain rfl : kind = .keyword := Token.kind_of_keyword (denotes ⟨0, 0⟩)
    obtain ⟨characters, same, valid⟩ := spelled_keyword_iff.1 spelled
    rw [rendered] at same
    obtain ⟨-, rfl⟩ := List.cons.inj same
    exact valid
  · intro valid
    refine ⟨.keyword, ?_, fun span => ?_⟩
    · rw [rendered]
      exact spelled_keyword_iff.2 ⟨name.toList, rfl, valid⟩
    · simp [Token.atom?, lexemeAfter, rendered]

theorem qualifyKey_printable {token : Token} (spelled : Spelled token.kind token.lexeme.toList)
    (marks : token.kind = .namespacedMap) {key : Form} (printable : key.Printable) :
    (qualifyKey token.spaceName key).Printable := by
  rw [marks] at spelled
  obtain ⟨name, same, constituents⟩ := spelled.namespacedMap
  have space : ∀ c ∈ token.spaceName.toList, isConstituent c = true := by
    intro c member
    rw [Token.spaceName, same, String.toList_ofList] at member
    have within := (List.dropWhile_sublist _).subset member
    rcases List.mem_cons.1 within with rfl | later
    · decide
    · exact constituents c later
  unfold qualifyKey
  split
  next keyword span metadata =>
    split
    · exact printable
    · cases printable with
      | atom leafPrintable =>
        have valid := Atom.keyword_printable_iff.1 leafPrintable
        apply Form.Printable.atom
        apply Atom.keyword_printable_iff.2
        constructor
        · simp
        · intro c member
          simp only [String.toList_append, List.mem_append] at member
          rcases member with (inSpace | slash) | inName
          · exact space c inSpace
          · obtain rfl : c = '/' := by simpa using slash
            decide
          · exact valid.2 c inName
  next => exact printable

/-- Source text derives only forms that can be printed. -/
theorem Derives.printable {features : Features} {phrase : Phrase} {tokens : List Token}
    {forms : List Form} (derives : Derives features phrase tokens forms)
    (spelled : ∀ token ∈ tokens, Spelled token.kind token.lexeme.toList) :
    ∀ form ∈ forms, form.Printable := by
  induction derives with
  | atom denotes =>
    rw [List.forall_mem_singleton]
    exact .atom (Token.printable_of_atom? (spelled _ List.mem_cons_self) denotes)
  | group _ _ _ ih =>
    rw [List.forall_mem_singleton]
    exact .group (ih fun token member => spelled token (by simp [member]))
  | map _ _ _ ih =>
    have inside := ih fun token member => spelled token (by simp [member])
    rw [List.forall_mem_singleton]
    apply Form.Printable.map
    · exact fun entry member => inside entry.1 (mem_entryForms.2 ⟨entry, member, .inl rfl⟩)
    · exact fun entry member => inside entry.2 (mem_entryForms.2 ⟨entry, member, .inr rfl⟩)
  | marked marks _ ih =>
    have inner := ih fun token member => spelled token (List.mem_cons_of_mem _ member)
    rw [List.forall_mem_singleton]
    exact .marked (Token.printable_of_mark? (spelled _ List.mem_cons_self) marks)
      (List.forall_mem_singleton.1 inner)
  | metadata _ _ _ _ _ ih =>
    have target := ih fun token member => spelled token (by simp [member])
    rw [List.forall_mem_singleton]
    exact (List.forall_mem_singleton.1 target).withMetadata _ _
  | @namespacedMap _ token _ _ _ _ marks _ ih =>
    have inner := ih fun token member => spelled token (List.mem_cons_of_mem _ member)
    rw [List.forall_mem_singleton]
    cases List.forall_mem_singleton.1 inner with
    | map keysPrintable valuesPrintable =>
      apply Form.Printable.map
      · intro entry member
        obtain ⟨⟨key, value⟩, source, rfl⟩ := List.mem_map.1 member
        exact qualifyKey_printable (spelled token List.mem_cons_self) marks
          (keysPrintable (key, value) source)
      · intro entry member
        obtain ⟨⟨key, value⟩, source, rfl⟩ := List.mem_map.1 member
        exact valuesPrintable (key, value) source
  | discard => exact fun form member => absurd member List.not_mem_nil
  | conditional _ _ _ _ selects ih =>
    have inside := ih fun token member => spelled token (by simp [member])
    intro form member
    rw [Option.mem_toList.1 member] at selects
    exact inside form selects.mem
  | splice _ _ _ _ selects spliced ih =>
    have inside := ih fun token member => spelled token (by simp [member])
    cases spliced with
    | nothing => exact fun form member => absurd member List.not_mem_nil
    | list | vector =>
      cases inside _ selects.mem with
      | group itemsPrintable => exact itemsPrintable
    | form => exact List.forall_mem_singleton.2 (inside _ selects.mem)
  | nil => exact fun form member => absurd member List.not_mem_nil
  | cons _ _ first rest =>
    have before := first fun token member => spelled token (List.mem_append_left _ member)
    have after := rest fun token member => spelled token (List.mem_append_right _ member)
    intro form member
    rcases List.mem_append.1 member with inFirst | inRest
    · exact before form inFirst
    · exact after form inRest
  | here _ ih => exact ih spelled
  | later _ _ _ ih => exact ih fun token member => spelled token (List.mem_append_right _ member)

end VarDoc
