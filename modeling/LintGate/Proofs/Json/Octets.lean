import LintGate.Proofs.Json.Printing
import LintGate.Proofs.Text.Lossy
/-! JSON as octets, with texts between quotes that need not be UTF-8. Such a text stands for what
its own octets are read as: the quotes around it are ASCII, and so no faulty octet inside reaches
over them. -/
namespace LintGate.Json.Grammar
open Text.Utf8 (encode decodeLossy lossyFrom)

/-! ### Parts -/

/- Octets are written as a text, or between quotes as they are. -/
inductive Part where
  | text (s : String)
  | raw (octets : List UInt8)
  deriving DecidableEq, Repr

namespace Part

def octets : Part → List UInt8
  | text s => encode s
  | raw bs => 0x22 :: (bs ++ [0x22])

def chars : Part → List Char
  | text s => s.toList
  | raw bs => quoted (lossyFrom none bs)

def raw? : Part → Option (List UInt8)
  | text _ => none
  | raw bs => some bs

end Part

theorem partRead (p : Part) (rest : List UInt8) :
    lossyFrom none (p.octets ++ rest) = p.chars ++ lossyFrom none rest := by
  have fresh : ∀ x ∈ (none : Option Text.Utf8.Owing), x.Sound := by simp
  have quote {o : Option Text.Utf8.Owing} (sound : ∀ x ∈ o, x.Sound) (bs more : List UInt8) :
      lossyFrom o (bs ++ 0x22 :: more) = lossyFrom o bs ++ '\x22' :: lossyFrom none more :=
    Text.Utf8.asciiEnds (c := '\x22') sound (by decide) bs more
  cases p with
  | text s => exact Text.Utf8.textRead s rest
  | raw bs =>
    calc lossyFrom none (0x22 :: (bs ++ [0x22]) ++ rest)
        = lossyFrom none ([] ++ 0x22 :: (bs ++ 0x22 :: rest)) := by simp
      _ = '\x22' :: (lossyFrom none bs ++ '\x22' :: lossyFrom none rest) := by
          rw [quote fresh, quote fresh]
          rfl
      _ = quoted (lossyFrom none bs) ++ lossyFrom none rest := by simp [quoted]

theorem partsRead (ps : List Part) :
    lossyFrom none (ps.flatMap Part.octets) = ps.flatMap Part.chars := by
  induction ps with
  | nil => rfl
  | cons p ps ih => rw [List.flatMap_cons, partRead, ih, List.flatMap_cons]

/-! ### Octets inside quotes -/

/- Neither a control character nor a quote or a backslash: what may stand between quotes as it is,
whether or not it belongs to a character. -/
def PlainOctet (b : UInt8) : Prop := 0x20 ≤ b.toNat ∧ b.toNat ≠ 0x22 ∧ b.toNat ≠ 0x5C

instance (b : UInt8) : Decidable (PlainOctet b) := by unfold PlainOctet; infer_instance

theorem plainContent {cs : List Char} (plain : ∀ c ∈ cs, Plain c) : Content cs cs := by
  induction cs with
  | nil => exact .nil
  | cons c cs ih =>
    obtain ⟨first, rest⟩ := List.forall_mem_cons.mp plain
    exact .cons (.itself first) (ih rest)

/- What plain octets are read as is plain too, and so spells itself. -/
theorem rawContent {bs : List UInt8} (plain : ∀ b ∈ bs, PlainOctet b) :
    Content (lossyFrom none bs) (lossyFrom none bs) := by
  refine plainContent ?_
  intro c member
  rcases Text.Utf8.lossyChars (o := none) (by simp) bs c member with high | ⟨b, inside, same⟩
  · have apart {d : Char} (low : d.toNat < 0x80) : c ≠ d := by
      rintro rfl
      omega
    exact ⟨by omega, apart (by decide), apart (by decide)⟩
  · obtain ⟨visible, quote, slash⟩ := plain b inside
    have apart {d : Char} (other : b.toNat ≠ d.toNat) : c ≠ d := by
      rintro rfl
      exact other same.symm
    exact ⟨same ▸ visible, apart quote, apart slash⟩

/-! ### Values -/

/- The grammar of JSON over again, with one more way to write a text. -/
inductive Printed : Phrase → List Part → Prop where
  | written {p s} (h : Spells p s.toList) : Printed p [.text s]
  | raw {bs} (plain : ∀ b ∈ bs, PlainOctet b) :
      Printed (.value (.text (decodeLossy bs))) [.raw bs]
  | array {vs ps} (h : Printed (.items vs) ps) :
      Printed (.value (.array vs)) (.text "[" :: (ps ++ [.text "]"]))
  | object {ms ps} (h : Printed (.members ms) ps) :
      Printed (.value (.object ms)) (.text "\x7b" :: (ps ++ [.text "\x7d"]))
  | spaced {a v ps b} (before : Spaces a.toList) (h : Printed (.value v) ps)
      (after : Spaces b.toList) : Printed (.spaced v) (.text a :: (ps ++ [.text b]))
  | lastItem {v ps} (h : Printed (.spaced v) ps) : Printed (.items [v]) ps
  | item {v ps vs qs} (head : Printed (.spaced v) ps) (tail : Printed (.items vs) qs) :
      Printed (.items (v :: vs)) (ps ++ .text "," :: qs)
  | member {a k ks b v ps} (before : Spaces a) (key : Key k ks) (after : Spaces b)
      (h : Printed (.spaced v) ps) :
      Printed (.member k v) (.text (String.ofList (a ++ (quoted ks ++ (b ++ [':'])))) :: ps)
  | lastMember {k v ps} (h : Printed (.member k v) ps) : Printed (.members [(k, v)]) ps
  | moreMembers {k v ps ms qs} (head : Printed (.member k v) ps) (tail : Printed (.members ms) qs) :
      Printed (.members ((k, v) :: ms)) (ps ++ .text "," :: qs)

/- Read as characters it is JSON like any other. -/
theorem printedSpells {p : Phrase} {ps : List Part} (h : Printed p ps) :
    Spells p (ps.flatMap Part.chars) := by
  have comma : ",".toList = [','] := rfl
  induction h with
  | written h => simpa [Part.chars] using h
  | @raw bs plain =>
    have content : Content (decodeLossy bs).toList (lossyFrom none bs) := by
      rw [decodeLossy, String.toList_ofList]
      exact rawContent plain
    simpa [Part.chars] using Spells.text content
  | array h ih => simpa [Part.chars] using Spells.array ih
  | object h ih => simpa [Part.chars] using Spells.object ih
  | spaced before h after ih => simpa [Part.chars] using Spells.spaced before ih after
  | lastItem h ih => exact .lastItem ih
  | item head tail first rest => simpa [Part.chars, comma] using Spells.item first rest
  | member before key after h ih =>
    simpa [Part.chars] using Spells.member before key after ih
  | lastMember h ih => exact .lastMember ih
  | moreMembers head tail first rest =>
    simpa [Part.chars, comma] using Spells.moreMembers first rest

/-! ### Writing -/

/- It can be written so that these octets, and in this order, stand in it as they are. -/
def Carries (p : Phrase) (bss : List (List UInt8)) : Prop :=
  ∃ ps, Printed p ps ∧ ps.filterMap Part.raw? = bss

theorem carriesRaw {bs : List UInt8} (plain : ∀ b ∈ bs, PlainOctet b) :
    Carries (.value (.text (decodeLossy bs))) [bs] :=
  ⟨[.raw bs], .raw plain, rfl⟩

theorem carriesNone {v : Value} (lawful : v.Lawful) : Carries (.value v) [] :=
  ⟨[.text (v.prettyAt 0)], .written (Value.prettySpells lawful 0), rfl⟩

theorem rawBetween (a b : String) (ps : List Part) :
    (Part.text a :: (ps ++ [.text b])).filterMap Part.raw? = ps.filterMap Part.raw? := by
  rw [List.filterMap_cons_none rfl, List.filterMap_append]
  exact List.append_nil _

theorem rawJoined (s : String) (ps qs : List Part) :
    (ps ++ .text s :: qs).filterMap Part.raw? =
      ps.filterMap Part.raw? ++ qs.filterMap Part.raw? := by
  rw [List.filterMap_append, List.filterMap_cons_none rfl]

theorem carriesSpaced {v : Value} {bss : List (List UInt8)} (h : Carries (.value v) bss) :
    Carries (.spaced v) bss := by
  obtain ⟨ps, printed, rfl⟩ := h
  exact ⟨_, .spaced (a := "") (b := "") spacesNone printed spacesNone, rawBetween "" "" ps⟩

theorem carriesMember (k : String) {v : Value} {bss : List (List UInt8)}
    (h : Carries (.value v) bss) : Carries (.member (some k) v) bss := by
  obtain ⟨ps, printed, rfl⟩ := carriesSpaced h
  exact ⟨_, .member spacesNone (.text (contentPrinted k.toList)) spacesNone printed,
    List.filterMap_cons_none rfl⟩

variable {α : Type} {value : α → Value} {octets : α → List (List UInt8)} {xs : List α}

/- Items and members alike: each carries its own, and a comma none. -/
theorem carriesRows {p : List α → Phrase}
    (last : ∀ x ∈ xs, Carries (p [x]) (octets x))
    (more : ∀ x ∈ xs, ∀ ys bss, Carries (p ys) bss →
      Carries (p (x :: ys)) (octets x ++ bss))
    (filled : xs ≠ []) : Carries (p xs) (xs.flatMap octets) := by
  induction xs with
  | nil => contradiction
  | cons x xs ih =>
    cases xs with
    | nil => simpa using last x (by simp)
    | cons y ys =>
      rw [List.flatMap_cons]
      exact more x (by simp) _ _ (ih (fun z member => last z (by simp [member]))
        (fun z member => more z (by simp [member])) (by simp))

theorem carriesArray (h : ∀ x ∈ xs, Carries (.value (value x)) (octets x)) :
    Carries (.value (.array (xs.map value))) (xs.flatMap octets) := by
  by_cases filled : xs = []
  · subst filled
    exact carriesNone (.array (by simp))
  have items : Carries (.items (xs.map value)) (xs.flatMap octets) := by
    refine carriesRows (p := fun ys => .items (ys.map value)) ?_ ?_ filled
    · intro x member
      obtain ⟨ps, printed, carried⟩ := carriesSpaced (h x member)
      exact ⟨ps, .lastItem printed, carried⟩
    · rintro x member ys _ ⟨qs, rest, rfl⟩
      obtain ⟨ps, first, carried⟩ := carriesSpaced (h x member)
      exact ⟨_, .item first rest, carried ▸ rawJoined "," ps qs⟩
  obtain ⟨ps, printed, carried⟩ := items
  exact ⟨_, .array printed, carried ▸ rawBetween "[" "]" ps⟩

/- Likewise an object, with a name for each of its values. -/
theorem carriesObject {name : α → String}
    (h : ∀ x ∈ xs, Carries (.value (value x)) (octets x)) :
    Carries (.value (.ofFields (xs.map fun x => (name x, value x)))) (xs.flatMap octets) := by
  by_cases filled : xs = []
  · subst filled
    exact carriesNone (.object (by simp) (by simp))
  have members : Carries (.members (xs.map fun x => (some (name x), value x)))
      (xs.flatMap octets) := by
    refine carriesRows (p := fun ys => .members (ys.map fun y => (some (name y), value y)))
      ?_ ?_ filled
    · intro x member
      obtain ⟨ps, printed, carried⟩ := carriesMember (name x) (h x member)
      exact ⟨ps, .lastMember printed, carried⟩
    · rintro x member ys _ ⟨qs, rest, rfl⟩
      obtain ⟨ps, first, carried⟩ := carriesMember (name x) (h x member)
      exact ⟨_, .moreMembers first rest, carried ▸ rawJoined "," ps qs⟩
  obtain ⟨ps, printed, carried⟩ := members
  refine ⟨_, ?_, carried ▸ rawBetween "\x7b" "\x7d" ps⟩
  rw [Value.ofFields, List.map_map]
  exact .object printed

end LintGate.Json.Grammar
