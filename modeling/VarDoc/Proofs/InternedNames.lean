import Mathlib.Data.List.Forall2
import VarDoc.Proofs.Dict
import VarDoc.Proofs.FormPlaces
import VarDoc.Proofs.TextPositions
import VarDoc.Namespace.Definition

/-! The names that a form interns, each with the form that it is placed at. The
definitions a form makes are these names in the same order, and whatever else
their metadata is given, they carry the identity of the var. -/

set_option autoImplicit false

namespace VarDoc

namespace Form

def methodForms (arguments : List Form) : List Form :=
  Definition.dropOptions (if (arguments.head?.bind string?).isSome then arguments.tail else arguments)

def typeName? : List Form → Option String
  | name :: fields :: _ => if fields.isVector then name.symbol? else none
  | _ => none

/-- The names that calling a definer interns, in order. A method is placed at its
signature and everything else at the whole form. -/
def internedBy (form : Form) (definer : String) (arguments : List Form) : List (String × Form) :=
  let first := (arguments.head?.bind symbol?).toList
  if definer ∈ ["def", "defn", "defn-", "defmacro", "defmulti", "defonce"] then
    first.map (·, form)
  else if definer = "declare" then (arguments.filterMap symbol?).map (·, form)
  else if definer = "defprotocol" then
    first.flatMap fun name => (name, form) ::
      (methodForms arguments.tail).filterMap fun signature => signature.head?.map (·, signature)
  else if definer = "defrecord" then
    (typeName? arguments).toList.flatMap fun name => [("->" ++ name, form), ("map->" ++ name, form)]
  else if definer = "deftype" then
    (typeName? arguments).toList.flatMap fun name => [("->" ++ name, form)]
  else []

def interned (form : Form) : List (String × Form) :=
  (form.head?.map Definition.coreName).toList.flatMap fun definer =>
    form.internedBy definer form.items.tail

theorem items_of_list? {form : Form} {items : List Form} (listed : form.list? = some items) :
    form.items = items := by
  unfold list? at listed
  split at listed
  · exact Option.some.inj listed
  · contradiction

theorem mem_dropOptions {place : Form} :
    ∀ {forms : List Form}, place ∈ Definition.dropOptions forms → place ∈ forms
  | [], member => member
  | [_], member => member
  | key :: value :: rest, member => by
    rw [Definition.dropOptions] at member
    split at member
    · exact List.mem_cons_of_mem _ (List.mem_cons_of_mem _ (mem_dropOptions member))
    · exact member

theorem mem_methodForms {place : Form} {arguments : List Form}
    (member : place ∈ methodForms arguments) : place ∈ arguments := by
  have kept := mem_dropOptions member
  split at kept
  · exact List.mem_of_mem_tail kept
  · exact kept

theorem place_of_map {form place : Form} {key : String} {names : List String}
    (listed : (key, place) ∈ names.map (·, form)) : place = form := by
  obtain ⟨_, -, same⟩ := List.mem_map.1 listed
  exact (Prod.mk.inj same).2.symm

theorem place_of_interned {form place : Form} {key : String} (member : (key, place) ∈ form.interned) :
    place = form ∨ place ∈ form.items := by
  obtain ⟨definer, -, listed⟩ := List.mem_flatMap.1 member
  unfold internedBy at listed
  simp only at listed
  split at listed
  · exact .inl (place_of_map listed)
  split at listed
  · exact .inl (place_of_map listed)
  split at listed
  · obtain ⟨name, -, inside⟩ := List.mem_flatMap.1 listed
    rcases List.mem_cons.1 inside with same | method
    · exact .inl (Prod.mk.inj same).2
    · obtain ⟨signature, among, made⟩ := List.mem_filterMap.1 method
      obtain ⟨_, -, same⟩ := Option.map_eq_some_iff.1 made
      obtain rfl := (Prod.mk.inj same).2
      exact .inr (List.mem_of_mem_tail (List.mem_of_mem_tail (mem_methodForms among)))
  split at listed
  · obtain ⟨name, -, inside⟩ := List.mem_flatMap.1 listed
    simp only [List.mem_cons, List.not_mem_nil, or_false] at inside
    rcases inside with same | same <;> exact .inl (Prod.mk.inj same).2
  split at listed
  · obtain ⟨name, -, inside⟩ := List.mem_flatMap.1 listed
    exact .inl (Prod.mk.inj (List.mem_singleton.1 inside)).2
  · exact absurd listed List.not_mem_nil

end Form

/-- The metadata says which var it belongs to and where that is defined. -/
structure Identity (space file key : String) (location : Location) (metadata : Metadata) : Prop where
  name : metadata.get? "name" = some (.symbol key)
  space : metadata.get? "ns" = some (.namespaceRef space)
  file : metadata.get? "file" = some (.text file)
  line : metadata.get? "line" = some (.int (Int64.ofNat location.line))
  column : metadata.get? "column" = some (.int (Int64.ofNat location.column))

/-- Nothing that metadata is given under the keys of the identity survives. -/
theorem Site.identity_identify (site : Site) (key : String) (span : Span) (given : Metadata) :
    Identity site.space site.file key (site.lines.locate site.text span.start)
      (site.identify key span given) := by
  constructor <;> rw [identify, Dict.get?_insertAll] <;> rfl

def Definition.Interns (site : Site) (definition : Definition) (named : String × Form) : Prop :=
  definition.1 = named.1 ∧ ∃ given, definition.2 = site.identify named.1 named.2.span given

namespace Definition

variable (site : Site) (form : Form)

theorem firstNamed?_fst (forms : List Form) :
    (firstNamed? forms).map Prod.fst = forms.head?.bind Form.symbol? := by
  cases forms with
  | nil => rfl
  | cons first rest =>
    change (named? first).map Prod.fst = first.symbol?
    rw [named?, Option.map_map]
    exact Option.map_id'

theorem interns_first {forms : List Form} {definitions : List Definition}
    (undefined : firstNamed? forms = none → definitions = [])
    (defined : ∀ name written, firstNamed? forms = some (name, written) →
      ∃ given, definitions = [(name, site.identify name form.span given)]) :
    List.Forall₂ (Interns site) definitions
      ((forms.head?.bind Form.symbol?).toList.map (·, form)) := by
  rw [← firstNamed?_fst]
  cases found : firstNamed? forms with
  | none =>
    rw [undefined found]
    exact .nil
  | some named =>
    obtain ⟨given, made⟩ := defined named.1 named.2 found
    rw [made]
    exact .cons ⟨rfl, given, rfl⟩ .nil

theorem interns_ofVar (arguments : List Form) :
    List.Forall₂ (Interns site) (ofVar site form.span arguments)
      ((arguments.head?.bind Form.symbol?).toList.map (·, form)) := by
  refine interns_first site form (fun missing => ?_) fun name written found => ?_
  · rw [ofVar, missing]
  · rw [ofVar, found]
    exact ⟨_, rfl⟩

theorem interns_ofFunction (kind : FunctionKind) (arguments : List Form) :
    List.Forall₂ (Interns site) (ofFunction site form.span kind arguments)
      ((arguments.head?.bind Form.symbol?).toList.map (·, form)) := by
  refine interns_first site form (fun missing => ?_) fun name written found => ?_
  · rw [ofFunction, missing]
  · rw [ofFunction, found]
    exact ⟨_, rfl⟩

theorem interns_ofMultimethod (arguments : List Form) :
    List.Forall₂ (Interns site) (ofMultimethod site form.span arguments)
      ((arguments.head?.bind Form.symbol?).toList.map (·, form)) := by
  refine interns_first site form (fun missing => ?_) fun name written found => ?_
  · rw [ofMultimethod, missing]
  · rw [ofMultimethod, found]
    exact ⟨_, rfl⟩

theorem interns_named? (argument : Form) :
    Option.Rel (Interns site)
      ((named? argument).map fun named =>
        (named.1, site.identify named.1 form.span (named.2.insert "declared" (.bool true))))
      (argument.symbol?.map (·, form)) := by
  rw [named?]
  cases argument.symbol? with
  | none => exact .none
  | some name => exact .some ⟨rfl, _, rfl⟩

theorem interns_ofDeclare (arguments : List Form) :
    List.Forall₂ (Interns site) (ofDeclare site form.span arguments)
      ((arguments.filterMap Form.symbol?).map (·, form)) := by
  rw [ofDeclare, List.map_filterMap, List.map_filterMap]
  refine List.rel_filterMap (R := Eq) ?_ (List.forall₂_refl arguments)
  rintro argument _ rfl
  exact interns_named? site form argument

theorem takeDoc_snd (metadata : Metadata) (forms : List Form) :
    (takeDoc metadata forms).2 =
      if (forms.head?.bind Form.string?).isSome then forms.tail else forms := by
  unfold takeDoc
  cases forms.head?.bind Form.string? <;> rfl

theorem interns_ofSignature (protocol : String) (signature : Form) :
    Option.Rel (Interns site) (ofSignature site protocol signature)
      (signature.head?.map (·, signature)) := by
  unfold ofSignature Form.head?
  cases signature.list? with
  | none => exact .none
  | some items =>
    simp only [Option.bind_some]
    rw [← firstNamed?_fst]
    cases firstNamed? items with
    | none => exact .none
    | some named => exact .some ⟨rfl, _, rfl⟩

theorem interns_methods (protocol : String) (forms : List Form) :
    List.Forall₂ (Interns site) (forms.filterMap (ofSignature site protocol))
      (forms.filterMap fun signature => signature.head?.map (·, signature)) := by
  refine List.rel_filterMap (R := Eq) ?_ (List.forall₂_refl forms)
  rintro signature _ rfl
  exact interns_ofSignature site protocol signature

theorem interns_ofProtocol (arguments : List Form) :
    List.Forall₂ (Interns site) (ofProtocol site form.span arguments)
      ((arguments.head?.bind Form.symbol?).toList.flatMap fun name => (name, form) ::
        (Form.methodForms arguments.tail).filterMap fun signature =>
          signature.head?.map (·, signature)) := by
  rw [← firstNamed?_fst, ofProtocol]
  cases firstNamed? arguments with
  | none => exact .nil
  | some named =>
    simp only [Option.map_some, Option.toList_some, List.flatMap_singleton]
    refine .cons ⟨rfl, _, rfl⟩ ?_
    rw [takeDoc_snd]
    exact interns_methods site named.1 _

theorem interns_ofType (isRecord : Bool) (arguments : List Form) :
    List.Forall₂ (Interns site) (ofType site form.span isRecord arguments)
      ((Form.typeName? arguments).toList.flatMap fun name =>
        if isRecord then [("->" ++ name, form), ("map->" ++ name, form)] else [("->" ++ name, form)]) := by
  rcases arguments with _ | ⟨nameForm, _ | ⟨fields, rest⟩⟩
  · exact .nil
  · exact .nil
  · simp only [ofType, Form.typeName?]
    cases fields.isVector with
    | false => cases nameForm.symbol? <;> exact .nil
    | true =>
      cases nameForm.symbol? with
      | none => exact .nil
      | some name =>
        cases isRecord with
        | false => exact .cons ⟨rfl, _, rfl⟩ .nil
        | true => exact .cons ⟨rfl, _, rfl⟩ (.cons ⟨rfl, _, rfl⟩ .nil)

/-- The definitions that a form makes are of the names that it interns. -/
theorem interns_ofForm : List.Forall₂ (Interns site) (ofForm site form) form.interned := by
  unfold ofForm Form.interned
  split
  next items head listed called =>
    rw [called, Form.items_of_list? listed]
    simp only [Option.map_some, Option.toList_some, List.flatMap_singleton, Form.internedBy]
    generalize coreName head = definer
    split
    · exact interns_ofVar site form items.tail
    · exact interns_ofFunction site form .openFunction items.tail
    · exact interns_ofFunction site form .privateFunction items.tail
    · exact interns_ofFunction site form .macroFunction items.tail
    · exact interns_ofMultimethod site form items.tail
    -- What follows the value of a `defonce` is dropped, which never reaches the name.
    · have interns := interns_ofVar site form (items.tail.take 2)
      rwa [List.head?_take, if_neg two_ne_zero] at interns
    · exact interns_ofDeclare site form items.tail
    · exact interns_ofProtocol site form items.tail
    · exact interns_ofType site form true items.tail
    · exact interns_ofType site form false items.tail
    next => simp_all
  next unlisted =>
    have uncalled : form.head? = none := by
      cases called : form.head? with
      | none => rfl
      | some head =>
        obtain ⟨items, listed, -⟩ := Option.bind_eq_some_iff.1 called
        exact absurd called (unlisted items head listed)
    rw [uncalled]
    exact .nil

end Definition

end VarDoc
