import TunnelControl.Proofs.Netlink.Command
import TunnelControl.Proofs.Netlink.MessageReading

/-!
Calls on a draft in any order. A nest may be closed by any mark that the draft has given, before or
after other nests, more than once or never. Whatever the order, a call writes only over bytes that
are there, the header stays in front of the draft, and the first length that cannot be stated is
the one that a draft reports when it is finished.
-/

namespace TunnelControl.Netlink.Draft

/-! Writing over bytes. -/

/-- Bytes that are written over others, and where. -/
structure Patch where
  offset : Nat
  bytes : Bytes

namespace Patch

def Covers (patch : Patch) (index : Nat) : Prop :=
  patch.offset ≤ index ∧ index < patch.offset + patch.bytes.length

def Inside (patch : Patch) (size : Nat) : Prop :=
  patch.offset + patch.bytes.length ≤ size

def on (patch : Patch) (data : Bytes) : Bytes :=
  data.take patch.offset ++ (patch.bytes ++ data.drop (patch.offset + patch.bytes.length))

variable {patch : Patch} {data : Bytes}

theorem length_take_offset (h : patch.Inside data.length) :
    (data.take patch.offset).length = patch.offset :=
  List.length_take_of_le (Nat.le_trans (Nat.le_add_right _ _) h)

theorem length_on (h : patch.Inside data.length) : (patch.on data).length = data.length := by
  unfold Inside at h
  rw [on, List.length_append, List.length_append, length_take_offset h, List.length_drop]
  omega

theorem take_drop_on (h : patch.Inside data.length) :
    ((patch.on data).drop patch.offset).take patch.bytes.length = patch.bytes := by
  rw [on, List.drop_left' (length_take_offset h), List.take_left]

theorem getElem?_on (h : patch.Inside data.length) {index : Nat} (hindex : ¬ patch.Covers index) :
    (patch.on data)[index]? = data[index]? := by
  have hfront := length_take_offset h
  rcases Nat.lt_or_ge index patch.offset with hbefore | hbehind
  · rw [on, List.getElem?_append_left (by rwa [hfront]), List.getElem?_take_of_lt hbefore]
  · have hpast : patch.offset + patch.bytes.length ≤ index :=
      Nat.le_of_not_lt fun hlt => hindex ⟨hbehind, hlt⟩
    rw [on, ← List.append_assoc, List.getElem?_append_right, List.getElem?_drop]
    · rw [List.length_append, hfront, Nat.add_sub_cancel' hpast]
    · rwa [List.length_append, hfront]

theorem on_append {front back : Bytes} (h : front.length ≤ patch.offset) :
    patch.on (front ++ back) = front ++ on ⟨patch.offset - front.length, patch.bytes⟩ back := by
  have hdrop : patch.offset + patch.bytes.length - front.length =
      patch.offset - front.length + patch.bytes.length := by
    omega
  rw [on, on, List.take_append, List.take_of_length_le h, List.drop_append,
    List.drop_eq_nil_of_le (Nat.le_trans h (Nat.le_add_right _ _)), hdrop, List.nil_append,
    List.append_assoc]

end Patch

theorem contents_put_inside {draft : Draft} {patch : Patch} (h : patch.Inside draft.size) :
    (draft.put patch.offset patch.bytes).contents = patch.on draft.contents := by
  rw [← length_contents] at h
  have hsplit : draft.contents = draft.contents.take patch.offset ++
      ((draft.contents.drop patch.offset).take patch.bytes.length ++
        draft.contents.drop (patch.offset + patch.bytes.length)) := by
    rw [← List.drop_drop, List.take_append_drop, List.take_append_drop]
  have hold : ((draft.contents.drop patch.offset).take patch.bytes.length).length =
      patch.bytes.length := by
    unfold Patch.Inside at h
    rw [List.length_take, List.length_drop]
    omega
  have hput := contents_put hsplit hold
  rwa [Patch.length_take_offset h] at hput

/-! Calls. -/

/-- A call that writes to a draft. -/
inductive Call where
  | append (data : Bytes)
  | leaf (type : UInt16) (payload : Bytes)
  | openNest (type : UInt16)
  | closeNest (mark : Mark)
  | setFlags (flags : UInt16)
  | setSequence (sequence : UInt32)
  | setPort (port : UInt32)
deriving DecidableEq, Repr

namespace Call

def perform (draft : Draft) : Call → Draft
  | append data => draft.append data
  | leaf type payload => draft.add (.leaf type payload)
  | openNest type => (draft.openNest type).1
  | closeNest mark => draft.closeNest mark
  | setFlags flags => draft.setFlags flags
  | setSequence sequence => draft.setSequence sequence
  | setPort port => draft.setPort port

def given (draft : Draft) : Call → List Mark
  | openNest type => [(draft.openNest type).2]
  | _ => []

def used : Call → List Mark
  | closeNest mark => [mark]
  | _ => []

def patch? (draft : Draft) : Call → Option Patch
  | closeNest mark => some ⟨mark.offset, Bytes.word16 (stated (draft.size - mark.offset))⟩
  | setFlags flags => some ⟨6, Bytes.word16 flags⟩
  | setSequence sequence => some ⟨8, Bytes.word32 sequence⟩
  | setPort port => some ⟨12, Bytes.word32 port⟩
  | _ => none

def patched (draft : Draft) (call : Call) : Bytes :=
  (call.patch? draft).elim draft.contents (Patch.on · draft.contents)

def length? (draft : Draft) : Call → Option Nat
  | leaf _ payload => some (attributeHeader + payload.length)
  | closeNest mark => some (draft.size - mark.offset)
  | _ => none

def flags? : Call → Option UInt16
  | setFlags flags => some flags
  | _ => none

def sequence? : Call → Option UInt32
  | setSequence sequence => some sequence
  | _ => none

def port? : Call → Option UInt32
  | setPort port => some port
  | _ => none

def restate (header : Header) : Call → Header
  | setFlags flags => { header with flags }
  | setSequence sequence => { header with sequence }
  | setPort port => { header with port }
  | _ => header

end Call

def performAll (draft : Draft) (calls : List Call) : Draft :=
  calls.foldl Call.perform draft

/-- Nests are closed only by marks that the draft has given; those at hand are the ones that it
gave before the calls. -/
def Legal (draft : Draft) (marks : List Mark) : List Call → Prop
  | [] => True
  | call :: calls =>
      (∀ mark ∈ call.used, mark ∈ marks) ∧
        Legal (call.perform draft) (marks ++ call.given draft) calls

instance (draft : Draft) (marks : List Mark) : (calls : List Call) → Decidable (Legal draft marks calls)
  | [] => inferInstanceAs (Decidable True)
  | call :: calls =>
      have := instDecidableLegal (call.perform draft) (marks ++ call.given draft) calls
      inferInstanceAs (Decidable (_ ∧ _))

/-- The lengths that calls state for attributes, in order. -/
def lengths (draft : Draft) : List Call → List Nat
  | [] => []
  | call :: calls => (call.length? draft).toList ++ lengths (call.perform draft) calls

/-! What one call does. -/

/-- A draft that its calls leave whole, with marks of nests that it has opened. -/
structure Sound (draft : Draft) (marks : List Mark) : Prop where
  aligned : draft.Aligned
  headed : Header.size ≤ draft.size
  marked : ∀ mark ∈ marks,
    Header.size ≤ mark.offset ∧ mark.offset + attributeHeader ≤ draft.size

theorem sound_start (type flags : UInt16) : Sound (start type flags) [] where
  aligned := aligned_start type flags
  headed := Nat.le_of_eq (size_start type flags).symm
  marked := nofun

variable {draft : Draft} {marks : List Mark} {call : Call} {calls : List Call}

theorem Sound.patch_inside (h : Sound draft marks) (hused : ∀ mark ∈ call.used, mark ∈ marks) :
    ∀ patch ∈ call.patch? draft, patch.Inside draft.size := by
  have hheaded : 16 ≤ draft.size := h.headed
  intro patch hpatch
  cases call with
  | append | leaf | openNest => cases hpatch
  | closeNest mark =>
      have hmark := (h.marked mark (hused mark List.mem_cons_self)).2
      cases hpatch
      rw [Patch.Inside, Bytes.length_word16]
      exact Nat.le_trans (Nat.add_le_add_left (by decide) _) hmark
  | setFlags | setSequence | setPort =>
      cases hpatch
      simp only [Patch.Inside, Bytes.length_word16, Bytes.length_word32]
      omega

theorem contents_closeNest_marked (haligned : draft.Aligned) {mark : Mark}
    (hmark : mark.offset + 2 ≤ draft.size) :
    (draft.closeNest mark).contents =
      Patch.on ⟨mark.offset, Bytes.word16 (stated (draft.size - mark.offset))⟩ draft.contents := by
  have hinside : Patch.Inside ⟨mark.offset, Bytes.word16 (stated (draft.size - mark.offset))⟩
      (draft.noteLength (draft.size - mark.offset)).size := by
    rwa [Patch.Inside, Bytes.length_word16, size_noteLength]
  have hput := contents_put_inside hinside
  have haligned' : ((draft.noteLength (draft.size - mark.offset)).put mark.offset
      (Bytes.word16 (stated (draft.size - mark.offset)))).Aligned := by
    rwa [Aligned, size_put, size_noteLength]
  rw [closeNest, contents_append haligned', hput, contents_noteLength]
  exact List.append_nil _

theorem Sound.contents_perform (h : Sound draft marks)
    (hused : ∀ mark ∈ call.used, mark ∈ marks) :
    ∃ added, (call.perform draft).contents = call.patched draft ++ added := by
  have hinside := h.patch_inside hused
  cases call with
  | append data => exact ⟨_, contents_append h.aligned data⟩
  | leaf type payload =>
      have hnoted : (draft.noteLength (attributeHeader + payload.length)).Aligned := by
        rw [Aligned, size_noteLength]
        exact h.aligned
      have hleaf := contents_append hnoted
        (Attribute.Header.bytes ⟨stated (attributeHeader + payload.length), type⟩ ++ payload)
      rw [contents_noteLength] at hleaf
      exact ⟨_, by rw [Call.perform, add, leaf]; exact hleaf⟩
  | openNest type => exact ⟨_, contents_openNest draft type⟩
  | closeNest mark =>
      have hmark := hinside _ rfl
      rw [Patch.Inside, Bytes.length_word16] at hmark
      exact ⟨[], by rw [List.append_nil]; exact contents_closeNest_marked h.aligned hmark⟩
  | setFlags flags =>
      have hput := contents_put_inside (hinside ⟨6, Bytes.word16 flags⟩ rfl)
      exact ⟨[], by rw [List.append_nil]; exact hput⟩
  | setSequence sequence =>
      have hput := contents_put_inside (hinside ⟨8, Bytes.word32 sequence⟩ rfl)
      exact ⟨[], by rw [List.append_nil]; exact hput⟩
  | setPort port =>
      have hput := contents_put_inside (hinside ⟨12, Bytes.word32 port⟩ rfl)
      exact ⟨[], by rw [List.append_nil]; exact hput⟩

theorem Sound.length_patched (h : Sound draft marks)
    (hused : ∀ mark ∈ call.used, mark ∈ marks) : (call.patched draft).length = draft.size := by
  have hinside := h.patch_inside hused
  rw [Call.patched, ← length_contents]
  cases hpatch : call.patch? draft with
  | none => rfl
  | some patch => exact Patch.length_on (by rw [length_contents]; exact hinside patch hpatch)

theorem Sound.size_le_perform (h : Sound draft marks)
    (hused : ∀ mark ∈ call.used, mark ∈ marks) : draft.size ≤ (call.perform draft).size := by
  obtain ⟨added, hcontents⟩ := h.contents_perform hused
  rw [← length_contents (call.perform draft), hcontents, List.length_append,
    h.length_patched hused]
  exact Nat.le_add_right _ _

theorem Sound.aligned_perform (h : Sound draft marks) : (call.perform draft).Aligned := by
  cases call with
  | append data => exact aligned_append h.aligned data
  | leaf type payload => exact aligned_add h.aligned _
  | openNest type => exact aligned_openNest h.aligned type
  | closeNest mark =>
      rw [Aligned, Call.perform, size_closeNest h.aligned]
      exact h.aligned
  | setFlags | setSequence | setPort =>
      rw [Aligned, Call.perform]
      first | rw [setFlags] | rw [setSequence] | rw [setPort]
      rw [size_put]
      exact h.aligned

theorem Sound.perform (h : Sound draft marks) (hused : ∀ mark ∈ call.used, mark ∈ marks) :
    Sound (call.perform draft) (marks ++ call.given draft) := by
  have hgrown := h.size_le_perform hused
  refine ⟨h.aligned_perform, Nat.le_trans h.headed hgrown, fun mark hmark => ?_⟩
  rcases List.mem_append.mp hmark with hold | hnew
  · exact ⟨(h.marked mark hold).1, Nat.le_trans (h.marked mark hold).2 hgrown⟩
  · cases call with
    | openNest type =>
        obtain rfl := List.mem_singleton.mp hnew
        exact ⟨h.headed, Nat.le_of_eq (size_openNest draft type).symm⟩
    | append | leaf | closeNest | setFlags | setSequence | setPort => cases hnew

/-- What a call keeps. The draft stays a row of whole words with a header in front and never gets
shorter; the call writes within it, and what it does not write over stays as it was. -/
structure Call.Keeps (call : Call) (before : Draft) : Prop where
  aligned : (call.perform before).size % 4 = 0
  headed : Header.size ≤ (call.perform before).size
  grows : before.size ≤ (call.perform before).size
  inside : ∀ patch ∈ call.patch? before, patch.Inside before.size
  written : ∀ patch ∈ call.patch? before,
    ((call.perform before).contents.drop patch.offset).take patch.bytes.length = patch.bytes
  elsewhere : ∀ index < before.size, (∀ patch ∈ call.patch? before, ¬ patch.Covers index) →
    (call.perform before).contents[index]? = before.contents[index]?

theorem Sound.keeps (h : Sound draft marks) (hused : ∀ mark ∈ call.used, mark ∈ marks) :
    call.Keeps draft := by
  obtain ⟨added, hcontents⟩ := h.contents_perform hused
  have hinside := h.patch_inside hused
  have hlength := h.length_patched hused
  have hafter := h.perform hused
  refine ⟨hafter.aligned, hafter.headed, h.size_le_perform hused, hinside, ?_, ?_⟩
  · intro patch hpatch
    have hfits := hinside patch hpatch
    have hpatched : call.patched draft = patch.on draft.contents := by
      rw [Call.patched, Option.mem_def.mp hpatch, Option.elim_some]
    have hfits' : patch.Inside draft.contents.length := by rwa [length_contents]
    rw [hcontents, List.drop_append_of_le_length, List.take_append_of_le_length, hpatched,
      Patch.take_drop_on hfits']
    · rw [List.length_drop, hlength]
      exact Nat.le_sub_of_add_le' hfits
    · rw [hlength]
      exact Nat.le_trans (Nat.le_add_right _ _) hfits
  · intro index hindex hcovers
    rw [hcontents, List.getElem?_append_left (by rwa [hlength]), Call.patched]
    cases hpatch : call.patch? draft with
    | none => rfl
    | some patch =>
        apply Patch.getElem?_on
        · rw [length_contents]
          exact hinside patch hpatch
        · exact hcovers patch hpatch

theorem Call.Keeps.closeNest {mark : Mark} (h : (Call.closeNest mark).Keeps draft) {index : Nat}
    (hindex : index < draft.size) (hfirst : index ≠ mark.offset)
    (hsecond : index ≠ mark.offset + 1) :
    (draft.closeNest mark).contents[index]? = draft.contents[index]? := by
  apply h.elsewhere index hindex
  intro patch hpatch
  cases hpatch
  rintro ⟨hleast, hmost⟩
  rw [Bytes.length_word16] at hmost
  dsimp only at hleast hmost
  omega

/-! What many calls do. -/

theorem performAll_cons (draft : Draft) (call : Call) (calls : List Call) :
    performAll draft (call :: calls) = performAll (call.perform draft) calls := rfl

theorem Sound.before_call (h : Sound draft marks) {front back : List Call}
    (hlegal : Legal draft marks (front ++ call :: back)) :
    ∃ marks, Sound (performAll draft front) marks ∧ ∀ mark ∈ call.used, mark ∈ marks := by
  induction front generalizing draft marks with
  | nil => exact ⟨marks, h, hlegal.1⟩
  | cons first front ih => exact ih (h.perform hlegal.1) hlegal.2

theorem Legal.opened {front back : List Call} {mark : Mark}
    (h : Legal draft marks (front ++ .closeNest mark :: back)) : mark ∈ marks ∨
      ∃ earlier type later, front = earlier ++ .openNest type :: later ∧
        mark.offset = (performAll draft earlier).size := by
  induction front generalizing draft marks with
  | nil => exact .inl (h.1 mark List.mem_cons_self)
  | cons first front ih =>
      rcases ih h.2 with hmem | ⟨earlier, type, later, rfl, hoffset⟩
      · rcases List.mem_append.mp hmem with hold | hnew
        · exact .inl hold
        · cases first with
          | openNest type =>
              obtain rfl := List.mem_singleton.mp hnew
              exact .inr ⟨[], type, front, rfl, rfl⟩
          | append | leaf | closeNest | setFlags | setSequence | setPort => cases hnew
      · exact .inr ⟨first :: earlier, type, later, rfl, hoffset⟩

/-! The header. -/

/-- A call changes of the header what it is there to change, for no nest has its mark within. -/
theorem Sound.header_perform (h : Sound draft marks) (hused : ∀ mark ∈ call.used, mark ∈ marks)
    {header : Header} {body : Bytes} (hcontents : draft.contents = header.bytes ++ body) :
    ∃ body, (call.perform draft).contents = (call.restate header).bytes ++ body := by
  obtain ⟨added, hadded⟩ := h.contents_perform hused
  cases call with
  | append | leaf | openNest =>
      have hkept := hadded.trans (congrArg (· ++ added) hcontents)
      exact ⟨body ++ added, by rw [← List.append_assoc]; exact hkept⟩
  | closeNest mark =>
      have hmark := (h.marked mark (hused mark List.mem_cons_self)).1
      have hpatch := @Patch.on_append ⟨mark.offset, Bytes.word16 (stated (draft.size - mark.offset))⟩
        header.bytes body (by rwa [Header.length_bytes])
      rw [Call.patched, Call.patch?, Option.elim_some, hcontents, hpatch, List.append_assoc] at hadded
      exact ⟨_, hadded⟩
  | setFlags flags => exact ⟨body, contents_setFlags hcontents flags⟩
  | setSequence sequence => exact ⟨body, contents_setSequence hcontents sequence⟩
  | setPort port => exact ⟨body, contents_setPort hcontents port⟩

theorem Sound.header_performAll (h : Sound draft marks) (hlegal : Legal draft marks calls)
    {header : Header} {body : Bytes} (hcontents : draft.contents = header.bytes ++ body) :
    ∃ body, (performAll draft calls).contents =
      (calls.foldl Call.restate header).bytes ++ body := by
  induction calls generalizing draft marks header body with
  | nil => exact ⟨body, hcontents⟩
  | cons call calls ih =>
      obtain ⟨hused, hlater⟩ := hlegal
      obtain ⟨body', hcontents'⟩ := h.header_perform hused hcontents
      exact ih (h.perform hused) hlater hcontents'

theorem type_foldl_restate (header : Header) (calls : List Call) :
    (calls.foldl Call.restate header).type = header.type := by
  induction calls generalizing header with
  | nil => rfl
  | cons call calls ih =>
      rw [List.foldl_cons, ih]
      cases call <;> rfl

theorem foldl_restate {value : Type} {field : Header → value} {set? : Call → Option value}
    (hset : ∀ header call, field (call.restate header) = (set? call).getD (field header))
    (header : Header) (calls : List Call) :
    field (calls.foldl Call.restate header) =
      (calls.filterMap set?).getLastD (field header) := by
  induction calls generalizing header with
  | nil => rfl
  | cons call calls ih =>
      rw [List.foldl_cons, ih, hset, List.filterMap_cons]
      cases set? call with
      | none => rfl
      | some value => exact List.getLastD_cons.symm

theorem flags_foldl_restate (header : Header) (calls : List Call) :
    (calls.foldl Call.restate header).flags =
      (calls.filterMap Call.flags?).getLastD header.flags :=
  foldl_restate (fun _ call => by cases call <;> rfl) header calls

theorem sequence_foldl_restate (header : Header) (calls : List Call) :
    (calls.foldl Call.restate header).sequence =
      (calls.filterMap Call.sequence?).getLastD header.sequence :=
  foldl_restate (fun _ call => by cases call <;> rfl) header calls

theorem port_foldl_restate (header : Header) (calls : List Call) :
    (calls.foldl Call.restate header).port =
      (calls.filterMap Call.port?).getLastD header.port :=
  foldl_restate (fun _ call => by cases call <;> rfl) header calls

/-! The lengths that are stated. -/

theorem oversized_perform (draft : Draft) (call : Call) :
    (call.perform draft).oversized =
      (draft.oversized <|> (call.length? draft).bind Attribute.excess?) := by
  cases call with
  | leaf type payload =>
      rw [Call.perform, add, leaf, oversized_append, oversized_noteLength]
      rfl
  | closeNest mark => exact oversized_closeNest draft mark
  | append | openNest | setFlags | setSequence | setPort =>
      simp only [Call.perform, openNest, setFlags, setSequence, setPort, oversized_append,
        oversized_put]
      cases draft.oversized <;> rfl

theorem oversized_performAll (draft : Draft) (calls : List Call) :
    (performAll draft calls).oversized =
      (draft.oversized <|> (lengths draft calls).find? (attributeLimit < ·)) := by
  induction calls generalizing draft with
  | nil =>
      rw [performAll, List.foldl_nil, lengths, List.find?_nil]
      cases draft.oversized <;> rfl
  | cons call calls ih =>
      rw [performAll_cons, ih, oversized_perform, lengths]
      cases draft.oversized with
      | some length => rfl
      | none =>
          cases hlength : call.length? draft with
          | none => rfl
          | some length =>
              by_cases hlarge : length ≤ attributeLimit
              · simp [Attribute.excess?, hlarge, Nat.not_lt.mpr hlarge]
              · simp [Attribute.excess?, hlarge, Nat.lt_of_not_le hlarge]

theorem mem_lengths_iff {length : Nat} : length ∈ lengths draft calls ↔
    ∃ front call back, calls = front ++ call :: back ∧
      call.length? (performAll draft front) = some length := by
  induction calls generalizing draft with
  | nil => simp [lengths]
  | cons first calls ih =>
      rw [lengths, List.mem_append, Option.mem_toList, ih]
      constructor
      · rintro (hfirst | ⟨front, call, back, rfl, hlength⟩)
        · exact ⟨[], first, calls, rfl, hfirst⟩
        · exact ⟨first :: front, call, back, rfl, hlength⟩
      · rintro ⟨front, call, back, hcalls, hlength⟩
        cases front with
        | nil =>
            obtain ⟨rfl, rfl⟩ := List.cons.inj hcalls
            exact .inl hlength
        | cons other front =>
            obtain ⟨rfl, rfl⟩ := List.cons.inj hcalls
            exact .inr ⟨front, call, back, rfl, hlength⟩

theorem exists_excess_iff : (∃ length ∈ lengths draft calls, attributeLimit < length) ↔
    (∃ type payload, .leaf type payload ∈ calls ∧ 65531 < payload.length) ∨
      ∃ front mark back, calls = front ++ .closeNest mark :: back ∧
        65535 < (performAll draft front).size - mark.offset := by
  have hlimit : ∀ size, attributeLimit < attributeHeader + size ↔ 65531 < size := by
    intro size
    unfold attributeLimit attributeHeader
    omega
  constructor
  · rintro ⟨length, hmem, hlarge⟩
    obtain ⟨front, call, back, rfl, hlength⟩ := mem_lengths_iff.mp hmem
    cases call with
    | leaf type payload =>
        cases hlength
        exact .inl ⟨type, payload, List.mem_append_right _ List.mem_cons_self, (hlimit _).mp hlarge⟩
    | closeNest mark =>
        cases hlength
        exact .inr ⟨front, mark, back, rfl, hlarge⟩
    | append | openNest | setFlags | setSequence | setPort => cases hlength
  · rintro (⟨type, payload, hmem, hlarge⟩ | ⟨front, mark, back, rfl, hlarge⟩)
    · obtain ⟨front, back, rfl⟩ := List.append_of_mem hmem
      exact ⟨_, mem_lengths_iff.mpr ⟨front, .leaf type payload, back, rfl, rfl⟩, (hlimit _).mpr hlarge⟩
    · exact ⟨_, mem_lengths_iff.mpr ⟨front, .closeNest mark, back, rfl, rfl⟩, hlarge⟩

/-! Finishing. -/

/-- Whatever calls are made on a new draft, it stays whole after each of them, and closing a nest
changes at most the two bytes that were put first when the nest was opened. The draft cannot be
finished if and only if a payload or a nest was too large or the whole is, and the first attribute
that was is the one reported. A finished frame has a header that states its size and what was set
last. -/
theorem calls_keep_draft_framed (type flags : UInt16) {calls : List Call}
    (hlegal : Legal (start type flags) [] calls) :
    let draft := performAll (start type flags) calls
    (∀ front call back, calls = front ++ call :: back →
      call.Keeps (performAll (start type flags) front)) ∧
    (∀ front mark back, calls = front ++ .closeNest mark :: back →
      let before := performAll (start type flags) front
      (∃ earlier nest later, front = earlier ++ .openNest nest :: later ∧
        mark.offset = (performAll (start type flags) earlier).size) ∧
      ∀ index < before.size, index ≠ mark.offset → index ≠ mark.offset + 1 →
        (before.closeNest mark).contents[index]? = before.contents[index]?) ∧
    ((∃ error, draft.finish = .error error) ↔
      (∃ type payload, .leaf type payload ∈ calls ∧ 65531 < payload.length) ∨
      (∃ front mark back, calls = front ++ .closeNest mark :: back ∧
        65535 < (performAll (start type flags) front).size - mark.offset) ∨
      UInt32.size ≤ draft.size) ∧
    (∀ error, draft.finish = .error error →
      error = match (lengths (start type flags) calls).find? (attributeLimit < ·) with
        | some length => .invalidAttribute (.oversized length)
        | none => .invalidMessage (.tooLong draft.size)) ∧
    ∀ frame, draft.finish = .ok frame → ∃ header : Header,
      frame = header.bytes ++ draft.contents.drop Header.size ∧
      header.length.toNat = frame.length ∧ header.type = type ∧
      header.flags = (calls.filterMap Call.flags?).getLastD flags ∧
      header.sequence = (calls.filterMap Call.sequence?).getLastD 0 ∧
      header.port = (calls.filterMap Call.port?).getLastD 0 := by
  intro draft
  have hstart := sound_start type flags
  have hoversized : draft.oversized =
      (lengths (start type flags) calls).find? (attributeLimit < ·) :=
    oversized_performAll (start type flags) calls
  have hexcess : draft.oversized = none ↔
      ¬ ∃ length ∈ lengths (start type flags) calls, attributeLimit < length := by
    rw [hoversized, List.find?_eq_none]
    simp
  refine ⟨?_, ?_, ?_, ?_, ?_⟩
  · rintro front call back rfl
    obtain ⟨marks, hsound, hused⟩ := hstart.before_call hlegal
    exact hsound.keeps hused
  · rintro front mark back rfl
    obtain ⟨marks, hsound, hused⟩ := hstart.before_call hlegal
    have hopened := hlegal.opened.resolve_left List.not_mem_nil
    exact ⟨hopened, fun index => (hsound.keeps hused).closeNest⟩
  · rw [← or_assoc, ← exists_excess_iff]
    have hfails : (∃ error, draft.finish = .error error) ↔ ¬ ∃ frame, draft.finish = .ok frame := by
      cases draft.finish <;> simp
    rw [hfails, finish_eq_ok_iff, hexcess, not_and_or, not_not, Nat.not_lt]
  · intro error herror
    rw [← hoversized]
    cases hlarge : draft.oversized with
    | some length =>
        rw [finish_of_oversized hlarge] at herror
        exact (Except.error.inj herror).symm
    | none =>
        simp only [finish, hlarge] at herror
        split at herror
        · cases herror
        · exact (Except.error.inj herror).symm
  · intro frame hframe
    obtain ⟨hnone, hsize⟩ := (finish_eq_ok_iff draft).mp ⟨frame, hframe⟩
    obtain ⟨body, hcontents⟩ := hstart.header_performAll hlegal
      ((contents_start type flags).trans (List.append_nil _).symm)
    have hlength : draft.size = Header.size + body.length := by
      rw [← length_contents, hcontents, List.length_append, Header.length_bytes]
    rw [finish_headed hcontents hnone hsize] at hframe
    cases hframe
    let written : Header := ⟨16, type, flags, 0, 0⟩
    refine ⟨{ calls.foldl Call.restate written with length := UInt32.ofNat draft.size }, ?_, ?_,
      type_foldl_restate written calls, flags_foldl_restate written calls,
      sequence_foldl_restate written calls, port_foldl_restate written calls⟩
    · rw [hcontents, List.drop_left' (Header.length_bytes _)]
    · rw [List.length_append, Header.length_bytes, ← hlength]
      show (UInt32.ofNat draft.size).toNat = draft.size
      rw [UInt32.toNat_ofNat', Nat.mod_eq_of_lt hsize]

/-- Two nests closed in the wrong order and one of them again, and an attribute that is too large
closed within a nest that is too. -/
theorem calls_keep_draft_framed_crossed_nests :
    let calls : List Call := [.openNest 1, .leaf 2 [7], .openNest 3, .setFlags 5,
      .closeNest ⟨16⟩, .append [1, 2], .setSequence 7, .closeNest ⟨28⟩, .setFlags 9,
      .closeNest ⟨16⟩, .setPort 8]
    let large : List Call := [.openNest 1, .leaf 2 (List.replicate 65532 0), .closeNest ⟨16⟩]
    Legal (start 18 1) [] calls ∧ Legal (start 18 1) [] large ∧
      (∃ (header : Header) (body : Bytes),
        (performAll (start 18 1) calls).finish = .ok (header.bytes ++ body) ∧
        header.length = 36 ∧ header.type = 18 ∧ header.flags = 9 ∧ header.sequence = 7 ∧
        header.port = 8) ∧
      (performAll (start 18 1) large).finish = .error (.invalidAttribute (.oversized 65536)) := by
  intro calls large
  have hcalls : Legal (start 18 1) [] calls := by decide
  have hlarge : Legal (start 18 1) [] large := by
    simp [large, Legal, Call.used, Call.given, openNest, size_start, Header.size]
  obtain ⟨-, -, -, -, hfinished⟩ := calls_keep_draft_framed 18 1 hcalls
  obtain ⟨-, -, hfails, hreported, -⟩ := calls_keep_draft_framed 18 1 hlarge
  refine ⟨hcalls, hlarge, ?_, ?_⟩
  · obtain ⟨frame, hframe⟩ :=
      (finish_eq_ok_iff (performAll (start 18 1) calls)).mpr (by decide +kernel)
    obtain ⟨header, rfl, hlength, htype, hflags, hsequence, hport⟩ := hfinished frame hframe
    have hsize : (performAll (start 18 1) calls).contents.length = 36 := by decide +kernel
    rw [List.length_append, Header.length_bytes, List.length_drop, hsize] at hlength
    exact ⟨header, _, hframe, UInt32.toNat_inj.mp hlength, htype, hflags, hsequence, hport⟩
  · have hmem : Call.leaf 2 (List.replicate 65532 0) ∈ large :=
      List.mem_cons_of_mem _ List.mem_cons_self
    have hlong : 65531 < (List.replicate 65532 (0 : UInt8)).length := by
      rw [List.length_replicate]
      decide
    have hfirst : (lengths (start 18 1) large).find? (attributeLimit < ·) = some 65536 := by
      have hlengths : lengths (start 18 1) large =
          (attributeHeader + (List.replicate 65532 (0 : UInt8)).length) ::
            lengths (performAll (start 18 1) (large.take 2)) (large.drop 2) := rfl
      rw [hlengths, List.length_replicate, List.find?_cons_of_pos (by decide)]
      rfl
    obtain ⟨error, herror⟩ := hfails.mpr (.inl ⟨2, _, hmem, hlong⟩)
    rw [herror, hreported error herror, hfirst]

end TunnelControl.Netlink.Draft
