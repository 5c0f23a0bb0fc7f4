import VarDoc.Proofs.MetadataEntries
import VarDoc.Proofs.ReaderSubstitution

/-! Metadata stacked before a symbol. Each layer says something for some keywords,
and the outermost layer that mentions a keyword decides, whatever is discarded or
chosen by a conditional between them. The metadata of a var that is defined under
such a symbol follows. -/

set_option autoImplicit false

namespace VarDoc

namespace Form

def isLayer (form : Form) : Bool :=
  form.symbol?.isSome || form.string?.isSome || form.keyword?.isSome || form.map?.isSome

/-- What a layer says for a keyword: a symbol or a string is the tag, a keyword is
true, and in a map the last entry counts. -/
def layerValue? (layer : Form) (key : String) : Option Form :=
  match layer with
  | .atom (.symbol _) _ _ | .atom (.string _) _ _ => if key = "tag" then some layer else none
  | .atom (.keyword name) span _ => if key = name then some (.atom (.bool true) span []) else none
  | .map entries _ _ => lastValue? entries key
  | _ => none

theorem isLayer_iff {form : Form} : form.isLayer = true ↔ ∃ entries, Describes form entries := by
  constructor
  · intro isLayer
    cases form with
    | atom leaf =>
      cases leaf with
      | symbol => exact ⟨_, .symbol⟩
      | string => exact ⟨_, .string⟩
      | keyword => exact ⟨_, .keyword⟩
      | _ => cases isLayer
    | map => exact ⟨_, .map⟩
    | group shape => cases shape <;> cases isLayer
    | marked => cases isLayer
  · rintro ⟨entries, denotes⟩
    cases denotes <;> rfl

theorem lastValue?_of_describes {layer : Form} {entries : List (Form × Form)}
    (denotes : Describes layer entries) (key : String) :
    lastValue? entries key = layer.layerValue? key := by
  cases denotes with
  | map => rfl
  | symbol | string | keyword => simp [lastValue?_single, keyword?, layerValue?, eq_comm]

theorem symbol?_withMetadata (form : Form) (start : Span) (entries : List (Form × Form)) :
    (form.withMetadata start entries).symbol? = form.symbol? := by
  cases form with
  | atom leaf => cases leaf <;> rfl
  | group | map | marked => rfl

theorem metadata_withMetadata (form : Form) (start : Span) (entries : List (Form × Form)) :
    (form.withMetadata start entries).metadata = form.metadata ++ entries := by
  cases form <;> rfl

/-- A symbol for whose keywords the first of the layers that mentions one decides. -/
structure Bears (form : Form) (name : String) (layers : List Form) : Prop where
  symbol : form.symbol? = some name
  metadata : ∀ key, form.metadataGet? key = layers.findSome? (·.layerValue? key)

theorem Bears.withMetadata {form layer : Form} {name : String} {layers : List Form}
    (bears : form.Bears name layers) {entries : List (Form × Form)}
    (denotes : Describes layer entries) (start : Span) :
    (form.withMetadata start entries).Bears name (layer :: layers) where
  symbol := (symbol?_withMetadata form start entries).trans bears.symbol
  metadata key := by
    rw [metadataGet?_eq, metadata_withMetadata, lastValue?_append, ← metadataGet?_eq,
      lastValue?_of_describes denotes, bears.metadata key, List.findSome?_cons]
    cases layer.layerValue? key <;> rfl

end Form

variable {features : Features}

/-- The tokens are the symbol under these layers of metadata, the outermost first.
Anything that reads as nothing may stand between the layers, and so may a
conditional, whose branch then has the layers that are left. -/
inductive Stacked (features : Features) (name : String) : List Token → List Form → Prop where
  | symbol {token : Token} (denotes : token.atom? = some (.symbol name)) :
    Stacked features name [token] []
  | layer {token : Token} {first second : List Token} {description : Form} {layers : List Form}
    (marks : token.kind = .metadata) (described : Derives features .one first [description])
    (isLayer : description.isLayer = true) (target : Stacked features name second layers) :
    Stacked features name (token :: (first ++ second)) (description :: layers)
  | later {skipped tokens : List Token} {layers : List Form}
    (nothing : Derives features (.item false) skipped [])
    (rest : Stacked features name tokens layers) : Stacked features name (skipped ++ tokens) layers
  | chosen {token opening closing : Token} {body text : List Token} {branches : List (Form × Form)}
    {form : Form} {layers : List Form}
    (marks : token.kind = .conditional false) (opens : opening.kind = .opensGroup .list)
    (inside : Derives features (.items true) body (entryForms branches))
    (closes : closing.kind = .closes .paren) (selects : Selects features branches (some form))
    (part : text <:+: body) (derives : Derives features .one text [form])
    (branch : Stacked features name text layers) :
    Stacked features name (token :: opening :: (body ++ [closing])) layers

theorem Derives.one_unique {tokens : List Token} {form other : Form}
    (derives : Derives features .one tokens [form]) (again : Derives features .one tokens [other]) :
    form = other :=
  List.singleton_inj.1 (derives.items_of_one.unique again.items_of_one)

/-- The symbol is read with what its layers say. -/
theorem Stacked.derives {name : String} {tokens : List Token} {layers : List Form}
    (stacked : Stacked features name tokens layers) :
    ∃ form, Derives features .one tokens [form] ∧ form.Bears name layers := by
  induction stacked with
  | symbol denotes => exact ⟨_, .here (.atom denotes), rfl, fun _ => rfl⟩
  | @layer token first second description layers marks described isLayer _ ih =>
    obtain ⟨form, target, bears⟩ := ih
    obtain ⟨entries, denotes⟩ := Form.isLayer_iff.1 isLayer
    exact ⟨_, .here (.metadata marks described denotes target), bears.withMetadata denotes token.span⟩
  | later nothing _ ih =>
    obtain ⟨form, rest, bears⟩ := ih
    exact ⟨form, .later nothing rest, bears⟩
  | @chosen _ _ _ _ _ _ form _ marks opens inside closes selects _ derives _ ih =>
    obtain ⟨read, readsAgain, bears⟩ := ih
    obtain rfl := derives.one_unique readsAgain
    exact ⟨form, .here (.conditional marks opens inside closes selects), bears⟩

theorem Derives.readWithin {phrase : Phrase} {tokens : List Token} {forms : List Form}
    (derives : Derives features phrase tokens forms) :
    ∀ form ∈ forms, ∃ text, text <:+: tokens ∧ Derives features .one text [form] := by
  let Holds (tokens : List Token) (form : Form) : Prop :=
    form.ElementsWithin features tokens ∧ ∃ text, text <:+: tokens ∧ Derives features .one text [form]
  have mono {tokens others : List Token} {form : Form} (holds : Holds tokens form)
      (part : tokens <:+: others) : Holds others form := by
    obtain ⟨elements, text, inside, reads⟩ := holds
    exact ⟨elements.mono part, text, inside.trans part, reads⟩
  have made {tokens : List Token} {form : Form} (item : Derives features (.item false) tokens [form]) :
      Holds tokens form :=
    ⟨item.elementsWithin form List.mem_cons_self, tokens, List.infix_rfl, .here item⟩
  intro form member
  exact (@Derives.forall_within _ Holds mono And.left (fun item _ => made item) _ _ _ derives form
    member).2

theorem Derives.item_length {collecting : Bool} {tokens : List Token} {forms : List Form}
    (item : Derives features (.item collecting) tokens forms) : 0 < tokens.length := by
  cases item <;> exact Nat.zero_lt_succ _

theorem Derives.stacked_item {name : String} {tokens : List Token} {form : Form}
    (item : Derives features (.item false) tokens [form]) (symbol : form.symbol? = some name)
    (smaller : ∀ {text : List Token} {form : Form}, text.length < tokens.length →
      Derives features .one text [form] → form.symbol? = some name →
      ∃ layers, Stacked features name text layers) :
    ∃ layers, Stacked features name tokens layers := by
  generalize read : [form] = forms at item
  cases item with
  | @atom _ _ leaf denotes =>
    cases read
    cases leaf <;> cases symbol
    exact ⟨[], .symbol denotes⟩
  | group | map | marked | namespacedMap => cases read; cases symbol
  | discard => cases read
  | @metadata _ token first second description target entries marks described denotes derives =>
    cases read
    rw [Form.symbol?_withMetadata] at symbol
    have shorter : second.length < (token :: (first ++ second)).length := by
      rw [List.length_cons, List.length_append]
      omega
    obtain ⟨layers, stacked⟩ := smaller shorter derives symbol
    exact ⟨description :: layers, .layer marks described (Form.isLayer_iff.2 ⟨entries, denotes⟩) stacked⟩
  | @conditional _ token opening closing body branches selected marks opens inside closes selects =>
    have member : form ∈ selected.toList := read ▸ List.mem_cons_self
    rw [Option.mem_toList.1 member] at selects
    obtain ⟨text, part, derives⟩ := inside.readWithin form selects.mem
    have shorter : text.length < (token :: opening :: (body ++ [closing])).length := by
      have := part.length_le
      rw [List.length_cons, List.length_cons, List.length_append]
      omega
    obtain ⟨layers, stacked⟩ := smaller shorter derives symbol
    exact ⟨layers, .chosen marks opens inside closes selects part derives stacked⟩

/-- A symbol is read only where it stands under layers of metadata. -/
theorem Derives.exists_stacked {name : String} {tokens : List Token} {form : Form}
    (derives : Derives features .one tokens [form]) (symbol : form.symbol? = some name) :
    ∃ layers, Stacked features name tokens layers := by
  induction length : tokens.length using Nat.strongRecOn generalizing tokens form with
  | ind bound ih =>
    subst length
    cases derives with
    | here item => exact item.stacked_item symbol fun shorter derives symbol => ih _ shorter derives symbol rfl
    | @later skipped tokens _ nothing rest =>
      have shorter : tokens.length < (skipped ++ tokens).length := by
        have := nothing.item_length
        rw [List.length_append]
        omega
      obtain ⟨layers, stacked⟩ := ih _ shorter rest symbol rfl
      exact ⟨layers, .later nothing stacked⟩

namespace Definition

theorem ofVar_undocumented (site : Site) (span : Span) {name : Form} {symbol : String}
    {others : List Form} (named : name.symbol? = some symbol)
    (undocumented : ¬ (others.length = 2 ∧ (others.head?.bind Form.string?).isSome = true)) :
    ofVar site span (name :: others) =
      [(symbol, site.identify symbol span (mergeEntries ∅ name.metadata))] := by
  have first : firstNamed? (name :: others) = some (symbol, mergeEntries ∅ name.metadata) := by
    simp [firstNamed?, named?, named]
  simp only [ofVar, first, List.tail_cons]
  -- Three arguments have a documentation string only if the second is a string.
  cases string : others.head?.bind Form.string? with
  | none => simp [takeDoc, string]
  | some doc =>
    have few : ¬ (name :: others).length = 3 := by simpa [string] using undocumented
    rw [if_neg few]

theorem ofForm_var (site : Site) {head : Form} (arguments : List Form) (span : Span)
    (metadata : List (Form × Form)) (calls : head.symbol?.map coreName = some "def") :
    ofForm site (.group .list (head :: arguments) span metadata) = ofVar site span arguments := by
  obtain ⟨word, called, isDef⟩ := Option.map_eq_some_iff.1 calls
  have headed : (Form.group .list (head :: arguments) span metadata).head? = some word := called
  unfold ofForm
  simp only [Form.list?, headed, isDef]
  rfl

end Definition

/-- A symbol is read exactly where it stands under layers of metadata. For every
keyword its metadata has what the outermost layer that mentions the keyword says,
and so has the var of a definition without documentation string, apart from what
identifies the var. -/
theorem outermost_metadata_wins (features : Features) (name : String) (tokens : List Token) :
    (∀ form size rest, nextForm? features size (lexedItems tokens ++ rest) = some (.ok form, rest) →
      form.symbol? = some name → ∃ layers, Stacked features name tokens layers) ∧
    ∀ layers, Stacked features name tokens layers → ∃ form : Form,
      (∀ size rest, nextForm? features size (lexedItems tokens ++ rest) = some (.ok form, rest)) ∧
      form.symbol? = some name ∧
      (∀ key, form.metadataGet? key = layers.findSome? (·.layerValue? key)) ∧
      ∀ (site : Site) (head : Form) (others : List Form) (span : Span) (metadata : List (Form × Form)),
        head.symbol?.map Definition.coreName = some "def" →
        ¬ (others.length = 2 ∧ (others.head?.bind Form.string?).isSome = true) →
        ∃ interned, Definition.ofForm site (.group .list (head :: form :: others) span metadata) =
            [(name, interned)] ∧
          ∀ key ∉ Site.identityKeys, interned.get? key =
            (layers.findSome? (·.layerValue? key)).map (Definition.entryValue key) := by
  constructor
  · intro form size rest read symbol
    have accounted := nextForm?_accounted features size (lexedItems tokens ++ rest)
    rw [read] at accounted
    obtain ⟨others, same, derives⟩ := accounted
    obtain rfl := lexedItems_injective (List.append_cancel_right same)
    exact derives.exists_stacked symbol
  · intro layers stacked
    obtain ⟨form, derives, bears⟩ := stacked.derives
    refine ⟨form, fun size rest => drives_of_derives derives [] rest rfl, bears.symbol, bears.metadata, ?_⟩
    intro site head others span metadata calls undocumented
    refine ⟨_, (Definition.ofForm_var site _ span metadata calls).trans
      (Definition.ofVar_undocumented site span bears.symbol undocumented), ?_⟩
    intro key other
    have nothing : (∅ : Metadata).get? key = none := rfl
    rw [Site.get?_identify_of_ne site name span _ other, Definition.get?_mergeEntries, nothing,
      Option.or_none, Definition.writtenValue?, ← Form.metadataGet?_eq, bears.metadata key]

/-- Of two layers with a conditional and a discarded form between them, the outer
one decides, and in it the last entry. -/
theorem outer_map_wins_over_keyword :
    let token (kind : TokenKind) (lexeme : String) : Token := ⟨kind, .nowhere, lexeme⟩
    let leaf (atom : Atom) : Form := .atom atom .nowhere []
    let description := [token .opensMap "\x7b", token .keyword ":k", token .number "1",
      token .keyword ":k", token .number "2", token (.closes .curly) "\x7d"]
    let discarded := [token .discard "#_", token .symbol "z"]
    let branch := [token .metadata "^", token .keyword ":k", token .symbol "x"]
    let conditional := token (.conditional false) "#?" :: token (.opensGroup .list) "(" ::
      ((token .keyword ":clj" :: branch) ++ [token (.closes .paren) ")"])
    ∃ form : Form, (∀ rest, nextForm? ["clj"] 0 (lexedItems (token .metadata "^" ::
        (description ++ (discarded ++ conditional))) ++ rest) = some (.ok form, rest)) ∧
      form.metadataGet? "k" = some (leaf (.number "2")) ∧
      ∃ interned, Definition.ofForm (.ofText "a" "a.clj" "")
          (.group .list [leaf (.symbol "def"), form] .nowhere []) = [("x", interned)] ∧
        interned.get? "k" = some (.int 2) := by
  intro token leaf description discarded branch conditional
  have key : (token .keyword ":k").atom? = some (.keyword "k") := by decide
  have feature : (token .keyword ":clj").atom? = some (.keyword "clj") := by decide
  have symbol : (token .symbol "x").atom? = some (.symbol "x") := by decide
  have number (text : String) : Derives ["clj"] (.items true)
      [token .keyword ":k", token .number text] (entryForms [(leaf (.keyword "k"), leaf (.number text))]) :=
    (Derives.single (.atom key)).append (Derives.single (.atom rfl))
  have entries : Derives ["clj"] (.items true) _ (entryForms
      [(leaf (.keyword "k"), leaf (.number "1")), (leaf (.keyword "k"), leaf (.number "2"))]) :=
    (number "1").append (number "2")
  have described : Derives ["clj"] .one description _ := .here (.map rfl entries rfl)
  have chosen : Derives ["clj"] (.item false) branch
      [(leaf (.symbol "x")).withMetadata .nowhere [(leaf (.keyword "k"), leaf (.bool true))]] :=
    .metadata rfl (.here (.atom key)) .keyword (.here (.atom symbol))
  have stackedBranch : Stacked ["clj"] "x" branch [leaf (.keyword "k")] :=
    .layer rfl (.here (.atom key)) rfl (.symbol symbol)
  have branches : Derives ["clj"] (.items true) (token .keyword ":clj" :: branch)
      (entryForms [(leaf (.keyword "clj"), _)]) :=
    .cons (.atom feature) (chosen.anywhere true).single
  have stacked : Stacked ["clj"] "x" conditional _ :=
    .chosen rfl rfl branches rfl (.first ⟨"clj", _, _, rfl, .inr List.mem_cons_self⟩)
      ⟨[token .keyword ":clj"], [], rfl⟩ (.here chosen) stackedBranch
  have other : (token .symbol "z").atom? = some (.symbol "z") := by decide
  have whole : Stacked ["clj"] "x" (token .metadata "^" :: (description ++ (discarded ++ conditional))) _ :=
    .layer rfl described rfl (.later (.discard rfl (.here (.atom other))) stacked)
  obtain ⟨form, read, -, found, interns⟩ := (outermost_metadata_wins ["clj"] "x" _).2 _ whole
  obtain ⟨interned, made, values⟩ :=
    interns (.ofText "a" "a.clj" "") (leaf (.symbol "def")) [] .nowhere [] (by decide +kernel) (by simp)
  exact ⟨form, read 0, found "k", interned, made, (values "k" (by decide)).trans rfl⟩

end VarDoc
