import TunnelControl.Proofs.Json.FormReading
import TunnelControl.Proofs.Json.TokenReading

namespace TunnelControl.Json

mutual

def tokens : Json → List Token
  | .null => [.null]
  | .bool value => [.bool value]
  | .number numeral => [.number numeral]
  | .string text => [.string text]
  | .array items => .openArray :: (itemTokens items ++ [.closeArray])
  | .object members => .openObject :: (memberTokens members ++ [.closeObject])

def itemTokens : List Json → List Token
  | [] => []
  | [item] => tokens item
  | item :: rest => tokens item ++ .comma :: itemTokens rest

def memberTokens : List (Option String × Json) → List Token
  | [] => []
  | [(name, value)] => .string name :: .colon :: tokens value
  | (name, value) :: rest =>
      .string name :: .colon :: (tokens value ++ .comma :: memberTokens rest)

end

/-- Nothing in the value is missing, so its text says all of it. -/
inductive Complete : Json → Prop
  | null : Complete .null
  | bool (value : Bool) : Complete (.bool value)
  | number (negative : Bool) (magnitude : Nat) : Complete (.number ⟨negative, magnitude, true⟩)
  | string (value : String) : Complete (.string (some value))
  | array {items : List Json} (hitems : ∀ item ∈ items, Complete item) : Complete (.array items)
  | object {members : List (Option String × Json)} (hnames : ∀ member ∈ members, member.1 ≠ none)
      (hvalues : ∀ member ∈ members, Complete member.2) : Complete (.object members)

/-! Characters are read as tokens. -/

theorem lexes_itemChars {items : List Json}
    (h : ∀ item ∈ items, Token.Lexes item.chars item.tokens) :
    Token.Lexes (itemChars items) (itemTokens items) := by
  induction items with
  | nil => exact Token.lexes_nil
  | cons item items ih =>
      obtain ⟨hitem, hitems⟩ := List.forall_mem_cons.mp h
      cases items with
      | nil => exact hitem
      | cons next items => exact hitem.around .comma rfl (ih hitems)

theorem lexes_memberChars {members : List (Option String × Json)}
    (hnames : ∀ member ∈ members, member.1 ≠ none)
    (hvalues : ∀ member ∈ members, Token.Lexes member.2.chars member.2.tokens) :
    Token.Lexes (memberChars members) (memberTokens members) := by
  induction members with
  | nil => exact Token.lexes_nil
  | cons member members ih =>
      obtain ⟨name, value⟩ := member
      obtain ⟨hname, hnext⟩ := List.forall_mem_cons.mp hnames
      obtain ⟨hvalue, hrest⟩ := List.forall_mem_cons.mp hvalues
      obtain ⟨text, rfl⟩ := Option.ne_none_iff_exists'.mp hname
      have hmember := (Token.lexes_quoted text).around .colon rfl hvalue
      cases members with
      | nil => exact hmember
      | cons next members => exact hmember.around .comma rfl (ih hnext hrest)

theorem lexes_chars {json : Json} (h : Complete json) : Token.Lexes json.chars json.tokens := by
  induction h with
  | null =>
      have hchars : chars .null = ['n', 'u', 'l', 'l'] := by decide
      exact hchars ▸ Token.lexes_of_read? rfl fun rest _ => rfl
  | bool value =>
      cases value with
      | false =>
          have hchars : chars (.bool false) = ['f', 'a', 'l', 's', 'e'] := by decide
          exact hchars ▸ Token.lexes_of_read? rfl fun rest _ => rfl
      | true =>
          have hchars : chars (.bool true) = ['t', 'r', 'u', 'e'] := by decide
          exact hchars ▸ Token.lexes_of_read? rfl fun rest _ => rfl
  | number negative magnitude => exact Token.lexes_number negative magnitude
  | string value => exact Token.lexes_quoted value
  | array _ ih =>
      have hitems := (lexes_itemChars ih).around .closeArray rfl Token.lexes_nil
      exact hitems.behind rfl
  | object hnames _ ih =>
      have hmembers := (lexes_memberChars hnames ih).around .closeObject rfl Token.lexes_nil
      exact hmembers.behind rfl

/-! Tokens are taken as values. -/

namespace Reading

def run? (reading : Reading) (tokens : List Token) : Option Reading :=
  tokens.foldlM step? reading

theorem run?_append (reading : Reading) (tokens more : List Token) :
    reading.run? (tokens ++ more) = (reading.run? tokens).bind (·.run? more) :=
  List.foldlM_append ..

/-- The tokens are taken wherever the value may stand, and leave it there. -/
def Takes (tokens : List Token) (value : Json) : Prop :=
  ∀ stack, (within stack .value).run? tokens = some (supply value stack)

theorem run?_itemTokens {items : List Json} (hitems : items ≠ [])
    (h : ∀ item ∈ items, Takes item.tokens item) (before : List Json) (stack : List Frame) :
    (within (.array before :: stack) .value).run? (itemTokens items) =
      some (.within (.array (items.reverse ++ before) :: stack) .separator) := by
  induction items generalizing before with
  | nil => exact absurd rfl hitems
  | cons item items ih =>
      obtain ⟨hitem, hrest⟩ := List.forall_mem_cons.mp h
      cases items with
      | nil => exact hitem (.array before :: stack)
      | cons next items =>
          rw [itemTokens, run?_append, hitem, List.reverse_cons, List.append_assoc]
          · exact ih (List.cons_ne_nil next items) hrest (item :: before)
          · exact List.cons_ne_nil next items

theorem run?_memberTokens {members : List (Option String × Json)} (hmembers : members ≠ [])
    (h : ∀ member ∈ members, Takes member.2.tokens member.2)
    (before : List (Option String × Json)) (stack : List Frame) :
    (within (.object before none :: stack) .name).run? (memberTokens members) =
      some (.within (.object (members.reverse ++ before) none :: stack) .separator) := by
  induction members generalizing before with
  | nil => exact absurd rfl hmembers
  | cons member members ih =>
      obtain ⟨name, value⟩ := member
      obtain ⟨hvalue, hrest⟩ := List.forall_mem_cons.mp h
      have hmember : (within (.object before none :: stack) .name).run?
          (.string name :: .colon :: value.tokens) =
            some (.within (.object ((name, value) :: before) none :: stack) .separator) :=
        hvalue (.object before name :: stack)
      cases members with
      | nil => exact hmember
      | cons next members =>
          rw [memberTokens, ← List.cons_append, ← List.cons_append, run?_append, hmember,
            List.reverse_cons, List.append_assoc]
          · exact ih (List.cons_ne_nil next members) hrest ((name, value) :: before)
          · exact List.cons_ne_nil next members

theorem exists_tokens_eq_cons (json : Json) :
    ∃ first rest, json.tokens = first :: rest ∧ first ≠ .closeArray := by
  cases json <;> exact ⟨_, _, rfl, by simp⟩

theorem run?_itemTokens_orEnd (item : Json) (items : List Json) (stack : List Frame) :
    (within stack .valueOrEnd).run? (itemTokens (item :: items)) =
      (within stack .value).run? (itemTokens (item :: items)) := by
  obtain ⟨first, rest, hitem, hfirst⟩ := exists_tokens_eq_cons item
  have hstep : step? (.within stack .valueOrEnd) first = step? (.within stack .value) first :=
    if_neg hfirst
  cases items <;> simp only [itemTokens, hitem, List.cons_append, run?, List.foldlM_cons, hstep]

theorem run?_memberTokens_orEnd (member : Option String × Json)
    (members : List (Option String × Json)) (stack : List Frame) :
    (within stack .nameOrEnd).run? (memberTokens (member :: members)) =
      (within stack .name).run? (memberTokens (member :: members)) := by
  cases members <;> rfl

theorem takes_tokens {json : Json} (h : Complete json) : Takes json.tokens json := by
  induction h with
  | null => exact fun stack => rfl
  | bool value => exact fun stack => rfl
  | number negative magnitude => exact fun stack => rfl
  | string value => exact fun stack => rfl
  | @array items _ ih =>
      intro stack
      change (within (.array [] :: stack) .valueOrEnd).run? (itemTokens items ++ [.closeArray]) = _
      cases items with
      | nil => rfl
      | cons item items =>
          rw [run?_append, run?_itemTokens_orEnd,
            run?_itemTokens (List.cons_ne_nil item items) ih, List.append_nil]
          exact congrArg (fun items => some (supply (.array items) stack)) (List.reverse_reverse _)
  | @object members _ _ ih =>
      intro stack
      change (within (.object [] none :: stack) .nameOrEnd).run?
        (memberTokens members ++ [.closeObject]) = _
      cases members with
      | nil => rfl
      | cons member members =>
          rw [run?_append, run?_memberTokens_orEnd,
            run?_memberTokens (List.cons_ne_nil member members) ih, List.append_nil]
          exact congrArg (fun members => some (supply (.object members) stack))
            (List.reverse_reverse _)

end Reading

theorem parse?_render {json : Json} (h : Complete json) : parse? json.render = some json := by
  have hends : Token.Ends [] := fun _ hmem => nomatch hmem
  have hlexes := lexes_chars h [] hends
  rw [List.append_nil, Token.all?, Option.map_some, List.append_nil] at hlexes
  have hrun : json.tokens.foldlM Reading.step? Reading.start = some (.finished json) :=
    Reading.takes_tokens h []
  rw [parse?, render, String.toList_ofList, hlexes]
  simp only [Option.bind_eq_bind, Option.bind_some, hrun, Reading.value?]

/-! Whole forms. -/

theorem complete_record {members : List (String × Json)}
    (h : ∀ member ∈ members, Complete member.2) : Complete (record members) := by
  refine .object ?_ ?_
  · intro member hmem
    obtain ⟨written, -, rfl⟩ := List.mem_map.mp hmem
    exact Option.some_ne_none written.1
  · intro member hmem
    obtain ⟨written, hwritten, rfl⟩ := List.mem_map.mp hmem
    exact h written hwritten

@[simp] theorem complete_text (value : String) : Complete (text value) := .string value

@[simp] theorem complete_natural (value : Nat) : Complete (natural value) := .number false value

@[simp] theorem complete_integer (value : Int) : Complete (integer value) :=
  .number (value < 0) value.natAbs

@[simp] theorem complete_texts (texts : List String) : Complete (.array (texts.map .text)) := by
  refine .array fun item hmem => ?_
  obtain ⟨text, -, rfl⟩ := List.mem_map.mp hmem
  exact .string text

/-- A way to write values of a type, all of which can be read again. -/
structure Form (α : Type) where
  write : α → Json
  read? : Json → Option α
  complete : ∀ value, Complete (write value)
  read?_write : ∀ value, read? (write value) = some value

namespace Form

def interfaceAddresses : Form InterfaceAddresses where
  write := InterfaceAddresses.toJson
  read? := InterfaceAddresses.ofJson?
  complete addresses := complete_record (by simp)
  read?_write := InterfaceAddresses.ofJson?_toJson

def deviceReport : Form DeviceReport where
  write := DeviceReport.toJson
  read? := DeviceReport.ofJson?
  complete report := complete_record (by simp)
  read?_write := DeviceReport.ofJson?_toJson

def peerReport : Form PeerReport where
  write := PeerReport.toJson
  read? := PeerReport.ofJson?
  complete report := complete_record (by simp)
  read?_write := PeerReport.ofJson?_toJson

def nameList : Form (List String) where
  write := NameList.toJson
  read? := NameList.ofJson?
  complete := complete_texts
  read?_write := NameList.ofJson?_toJson

def settings : Form Settings where
  write := Settings.toJson
  read? := Settings.ofJson?
  complete settings := complete_record (by simp [Complete.bool])
  read?_write := Settings.ofJson?_toJson

def failureKind : Form Failure.Kind where
  write := Failure.Kind.toJson
  read? := Failure.Kind.ofJson?
  complete kind := .string kind.form
  read?_write := Failure.Kind.ofJson?_toJson

/-- What a form writes as text is read back from that text. -/
theorem text_read_back {α : Type} (form : Form α) (value : α) :
    (parse? (form.write value).render).bind form.read? = some value := by
  rw [parse?_render (form.complete value), Option.bind_some, form.read?_write]

end Form

end TunnelControl.Json
