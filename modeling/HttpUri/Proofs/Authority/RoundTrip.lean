import HttpUri.Authority
import HttpUri.Proofs.Authority.Composed

/-! The text of a location reads back as the location. -/
namespace HttpUri

namespace AuthorityParts
variable {host : Text}

/-- A host in brackets ends at its own closing one, and a host without brackets at its own end. -/
theorem hostAndPort_bracketed (hopen : host.head? ≠ some (.char '['))
    (hclose : .char ':' ∈ host → .char ']' ∉ host)
    (port : Option Text) : hostAndPort (bracketed host ++ portText port) = (host, port) := by
  by_cases hcolon : .char ':' ∈ host
  · rw [bracketed, if_pos ⟨hcolon, hopen⟩, List.cons_append, literal_append_portText]
    exact hostAndPort_literal port (hclose hcolon)
  · rw [bracketed, if_neg fun h => hcolon h.1]
    exact hostAndPort_name port hopen hcolon

theorem not_mem_bracketed {c : CodePoint} (hc : c ∉ host) (hne : c ≠ '[' ∧ c ≠ ']') :
    c ∉ bracketed host := by
  intro hm
  rcases mem_bracketed hm with hm | hm | hm
  · exact hc hm
  · exact hne.1 hm
  · exact hne.2 hm

end AuthorityParts

namespace Authority
open AuthorityParts
variable {a : Authority} {s : Text}

def userText : Option Text → Text
  | some info => info ++ [.char '@']
  | none => []

def portDigits (a : Authority) : Option Text :=
  if 0 ≤ a.port then some (Numeral.ofInt a.port) else none

@[simp] theorem all_portDigits (a : Authority) :
    a.portDigits.all (·.all CodePoint.isDigit) = true :=
  all_isDigit_ofInt a.port

theorem toText_eq (a : Authority) :
    a.toText = userText a.userInfo ++ (bracketed a.hostname ++ portText a.portDigits) := by
  have hport : (if 0 ≤ a.port then .char ':' :: Numeral.ofInt a.port else []) =
      portText a.portDigits := by
    unfold portDigits
    split <;> rfl
  have hname : a.nameText = userText a.userInfo ++ bracketed a.hostname := by
    unfold nameText userText
    cases a.userInfo <;> rfl
  rw [toText, hport, hname, List.append_assoc]

/-- The text of a location divides into what it was put together of: its last at sign is the one
that ends the user info, and no bracket or colon is taken for another one. -/
theorem ofText_toText (hat : .char '@' ∉ a.hostname) (hopen : a.hostname.head? ≠ some (.char '['))
    (hclose : .char ':' ∈ a.hostname → .char ']' ∉ a.hostname) :
    AuthorityParts.ofText a.toText = ⟨a.userInfo, a.hostname, a.portDigits⟩ := by
  have hparts := hostAndPort_bracketed hopen hclose a.portDigits
  have hrest : .char '@' ∉ bracketed a.hostname ++ portText a.portDigits := by
    rw [List.mem_append, not_or]
    exact ⟨not_mem_bracketed hat (by decide), not_mem_portText a.all_portDigits rfl (by decide)⟩
  rw [toText_eq]
  cases huser : a.userInfo with
  | none =>
    rw [AuthorityParts.ofText, userText, List.nil_append, Text.cutLast_eq_none.2 hrest]
    simp only [hparts]
  | some info =>
    have hcut : Text.cutLast '@' (info ++ [.char '@'] ++
        (bracketed a.hostname ++ portText a.portDigits)) =
        some (info, bracketed a.hostname ++ portText a.portDigits) :=
      Text.cutLast_eq_some.2 ⟨List.append_assoc .., hrest⟩
    rw [AuthorityParts.ofText, userText, hcut]
    simp only [hparts]

theorem parse_of_parts (h : AuthorityParts.ofText s = ⟨a.userInfo, a.hostname, a.portDigits⟩)
    (hport : a.port < 10 ^ Numeral.digitLimit) :
    parse s = .ok { a with port := if 0 ≤ a.port then a.port else -1 } := by
  have hnumber : parsePort a.portDigits s =
      .ok (if 0 ≤ a.port then some a.port.toNat else none) := by
    unfold portDigits
    split
    · next hp => exact parsePort_ofInt hp hport
    · rfl
  have hdatum : portDatum (if 0 ≤ a.port then some a.port.toNat else none) =
      .whole (if 0 ≤ a.port then a.port else -1) := by
    split
    · next hp => rw [portDatum, Int.toNat_of_nonneg hp]
    · rfl
  rw [parse, h]
  refine Outcome.bind_eq_ok.2 ⟨_, hnumber, ?_⟩
  rw [hdatum, make, dif_neg a.named]

/-- A location whose host name holds no at sign, is not begun by a bracket, and holds no closing one
beside a colon comes back from its text, whatever its user info. -/
theorem parse_toText (hat : .char '@' ∉ a.hostname) (hopen : a.hostname.head? ≠ some (.char '['))
    (hclose : .char ':' ∈ a.hostname → .char ']' ∉ a.hostname)
    (hport : a.port < 10 ^ Numeral.digitLimit) :
    parse a.toText = .ok { a with port := if 0 ≤ a.port then a.port else -1 } :=
  parse_of_parts (ofText_toText hat hopen hclose) hport

/-- User info full of delimiters, an opening bracket behind a colon, and a port that is not given.
-/
theorem parse_toText_of_address :
    let a : Authority := ⟨"::1%[".points, -7, some "me:pw@[h]:1".points, by decide⟩
    a.toText = "me:pw@[h]:1@[::1%[]".points ∧ parse a.toText = .ok { a with port := -1 } := by
  intro a
  have hport : a.port < 10 ^ Numeral.digitLimit := Numeral.lt_limit_of_neg (by decide)
  exact ⟨rfl, parse_toText (by decide) (by decide) (by decide) hport⟩

end Authority
end HttpUri
