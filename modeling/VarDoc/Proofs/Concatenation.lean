import VarDoc.Proofs.LexingLocality
import VarDoc.Proofs.Relocation

/-! Reading one text after another. A text that is read without error leaves
nothing open, neither a token nor a construct, so that a text on the lines after
it is read as if it stood alone. -/

set_option autoImplicit false

namespace VarDoc

theorem Text.width_toList (source : String) : Text.width source.toList = source.utf8ByteSize := by
  have characters (text : List Char) : (String.ofList text).utf8ByteSize = Text.width text := by
    induction text with
    | nil => rfl
    | cons c text ih =>
      rw [String.ofList_cons, String.utf8ByteSize_append, String.utf8ByteSize_singleton, ih, Text.width]
  rw [← characters, String.ofList_toList]

theorem lex_lines {first second : String} {tokens more : List Token}
    (lexed : lex first.toList = lexedItems tokens) (alsoLexed : lex second.toList = lexedItems more) :
    lex (first ++ "\n" ++ second).toList =
      lexedItems (tokens ++ more.map (Token.relocated (.forward (first.utf8ByteSize + 1)))) := by
  have lines : (first ++ "\n" ++ second).toList = first.toList ++ '\n' :: second.toList := by simp
  have behind : lexFrom 0 (first.utf8ByteSize + 1) second.toList =
      (lex second.toList).map (LexItem.relocated (.forward (first.utf8ByteSize + 1))) := by
    rw [lex, ← lexFrom_forward, Nat.zero_add]
  rw [lines, lex_line lexed, Text.width_toList, behind, alsoLexed, lexedItems_relocated,
    lexedItems_append]

/-- Of two texts with a line feed between them, the forms of the first are read
and then those of the second, which have moved on by the bytes before them. -/
theorem texts_read_one_after_another {features : Features} {first second : String}
    {forms others : List Form} (read : readAll features first = .ok forms)
    (alsoRead : readAll features second = .ok others) :
    readAll features (first ++ "\n" ++ second) =
      .ok (forms ++ others.map (Form.relocated (.forward (first.utf8ByteSize + 1)))) := by
  obtain ⟨tokens, lexed, derives⟩ := derives_of_readOutcomes (readAll_eq_ok_iff.1 read)
  obtain ⟨more, alsoLexed, alsoDerives⟩ := derives_of_readOutcomes (readAll_eq_ok_iff.1 alsoRead)
  rw [readAll_eq_ok_iff, lex_lines lexed alsoLexed]
  exact readOutcomes_of_derives (derives.append (alsoDerives.relocated _))

/-- A comment at the end of one text does not reach into the next, whose metadata
moves with it. -/
theorem commented_text_read_before_another :
    let spans (form : Form) := (form.span, form.metadata.map fun entry => entry.1.span)
    ∃ forms others, readAll ["clj"] "é ;b" = .ok forms ∧
      readAll ["clj"] "^:k [#_c d]" = .ok others ∧ others.map spans = [(⟨0, 11⟩, [⟨1, 3⟩])] ∧
      readAll ["clj"] ("é ;b" ++ "\n" ++ "^:k [#_c d]") =
        .ok (forms ++ others.map (Form.relocated (.forward 6))) ∧
      (others.map (Form.relocated (.forward 6))).map spans = [(⟨6, 17⟩, [⟨7, 9⟩])] := by
  intro spans
  have first : (readAll ["clj"] "é ;b").toOption.isSome = true := by decide +kernel
  have second : (readAll ["clj"] "^:k [#_c d]").toOption.map (fun others =>
      [others.map spans, (others.map (Form.relocated (.forward 6))).map spans]) =
      some [[(⟨0, 11⟩, [⟨1, 3⟩])], [(⟨6, 17⟩, [⟨7, 9⟩])]] := by decide +kernel
  obtain ⟨forms, seen⟩ := Option.isSome_iff_exists.1 first
  obtain ⟨others, alsoSeen, places⟩ := Option.map_eq_some_iff.1 second
  obtain ⟨before, after⟩ := List.cons.inj places
  have read := eq_ok_of_toOption seen
  have alsoRead := eq_ok_of_toOption alsoSeen
  exact ⟨forms, others, read, alsoRead, before, texts_read_one_after_another read alsoRead,
    (List.cons.inj after).1⟩

end VarDoc
