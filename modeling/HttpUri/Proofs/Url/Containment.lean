import HttpUri.Charset.Registry
import HttpUri.Proofs.Authority.Division
import HttpUri.Proofs.Url.Failure

/-! Which of the hosts that pass their check the grammar takes in the text of a reference. -/
namespace HttpUri

namespace Grammar
open AuthorityParts
variable {s host name x y : Text} {port : Option Text}

/-- A host that stays in one piece in the text of a reference. Brackets around it hold an address,
it holds none of the signs that end user info or authority, and with a closing bracket in its zone
no colon follows the first of these and no port the host. -/
structure Contained (host : Text) (port : Option Text) : Prop where
  address : host.head? = some (.char '[') → .char ':' ∈ host
  free : .char '?' ∉ host ∧ .char '#' ∉ host ∧ .char '@' ∉ host
  close : ∀ name, unbracket? host = some name → ∀ x y : Text, name = x ++ .char ']' :: y →
    .char ']' ∉ x →
    port = none ∧ y.head? ≠ some (.char ':')

theorem mem_of_unbracket? (h : unbracket? host = some name) {c : CodePoint} :
    (c ∈ name → c ∈ host) ∧ (c ∈ host → c ∈ name ∨ c = '[' ∨ c = ']') := by
  rcases unbracket?_eq_some.1 h with rfl | ⟨rfl, -⟩
  · simp only [List.mem_cons, List.mem_append, List.not_mem_nil, or_false]
    exact ⟨fun hc => .inr (.inl hc), fun hc => hc.elim (fun h => .inr (.inl h)) (Or.imp_right .inr)⟩
  · exact ⟨id, .inl⟩

theorem getLast?_of_isHost (h : isHost s = true) (hopen : s.head? = some (.char '[')) :
    s.getLast? = some (.char ']') := by
  obtain ⟨t, ht, -⟩ := isHost_iff.1 h
  rcases unbracket?_eq_some.1 ht with rfl | ⟨-, hne, -⟩
  · rw [← List.cons_append, List.getLast?_concat]
  · exact absurd hopen hne

/-- An address is a host in its brackets too, whatever its zone holds, but no port can follow. -/
theorem isHost_literal_iff (hip : Ip.isIpv6 name = true)
    (hp : port.all (·.all CodePoint.isDigit) = true) :
    isHost (.char '[' :: (name ++ .char ']' :: portText port)) = true ↔ port = none := by
  constructor
  · intro h
    have hlast := getLast?_of_isHost h rfl
    cases port with
    | none => rfl
    | some d =>
      have hmem : .char ']' ∈ portText (some d) := by
        have hne : portText (some d) ≠ [] := List.cons_ne_nil _ d
        rw [← literal_append_portText, List.getLast?_append_of_ne_nil _ hne] at hlast
        exact List.mem_of_getLast? hlast
      exact absurd hmem (not_mem_portText hp rfl (by decide))
  · rintro rfl
    have hbare : unbracket? (.char '[' :: (name ++ [.char ']'])) = some name :=
      unbracket?_eq_some.2 (.inl rfl)
    refine isHost_iff.2 ⟨name, hbare, ?_⟩
    rw [if_pos (Ip.colon_mem_of_isIpv6 hip), hip]

/-- A closing bracket in the zone stands for the one behind the address if a colon follows it, and
for none otherwise. -/
theorem isLocation_zone_iff (hip : Ip.isIpv6 (x ++ .char ']' :: y) = true) (hx : .char ']' ∉ x)
    (hp : port.all (·.all CodePoint.isDigit) = true) :
    isLocation (.char '[' :: (x ++ .char ']' :: y ++ .char ']' :: portText port)) = true ↔
      port = none ∧ y.head? ≠ some (.char ':') := by
  have hsplit : .char '[' :: (x ++ .char ']' :: y ++ .char ']' :: portText port) =
      .char '[' :: (x ++ .char ']' :: (y ++ .char ']' :: portText port)) := by simp
  by_cases hy : y.head? = some (.char ':')
  · obtain ⟨t, rfl⟩ := List.head?_eq_some_iff.1 hy
    have hparts : hostAndPort (.char '[' ::
        (x ++ .char ']' :: (.char ':' :: t ++ .char ']' :: portText port))) =
        (x, some (t ++ .char ']' :: portText port)) := hostAndPort_literal (some _) hx
    rw [isLocation, hsplit, hparts]
    refine iff_of_false (fun h => ?_) fun h => h.2 rfl
    have hdigits : (t ++ .char ']' :: portText port).all CodePoint.isDigit = true :=
      (Bool.and_eq_true_iff.1 h).1
    exact absurd (List.all_eq_true.1 hdigits ']' (by simp)) (by decide)
  · have hstray : ¬ Enclosed (.char '[' ::
        (x ++ .char ']' :: y ++ .char ']' :: portText port)) := by
      intro henclosed
      obtain ⟨t, behind, heq, ht, hbehind⟩ := henclosed
      obtain ⟨rfl, rfl⟩ :=
        Text.append_cons_inj_of_first (List.cons.inj (hsplit.symm.trans heq)).2 hx ht
      rcases hbehind with hnil | hcolon
      · simp at hnil
      · cases y with
        | nil => exact absurd (Option.some.inj hcolon) (by decide)
        | cons c y => exact hy hcolon
    have hcolon : .char ':' ∈ .char '[' :: (x ++ .char ']' :: y ++ .char ']' :: portText port) :=
      List.mem_cons_of_mem _ (List.mem_append_left _ (Ip.colon_mem_of_isIpv6 hip))
    rw [isLocation, hostAndPort_of_not_enclosed rfl hstray, List.head?_cons, if_pos rfl,
      decide_eq_true hcolon, Option.all_none, Bool.true_and, Bool.true_and,
      isHost_literal_iff hip hp]
    exact (and_iff_left hy).symm

theorem isLocation_literal_iff (hip : Ip.isIpv6 name = true)
    (hp : port.all (·.all CodePoint.isDigit) = true) :
    isLocation (.char '[' :: (name ++ .char ']' :: portText port)) = true ↔
      ∀ x y : Text, name = x ++ .char ']' :: y → .char ']' ∉ x →
        port = none ∧ y.head? ≠ some (.char ':') := by
  by_cases hclose : .char ']' ∈ name
  · obtain ⟨x, y, rfl, hx⟩ := List.eq_append_cons_of_mem hclose
    rw [isLocation_zone_iff hip hx hp]
    constructor
    · intro h x' y' heq hx'
      obtain ⟨rfl, rfl⟩ := Text.append_cons_inj_of_first heq hx hx'
      exact h
    · exact fun h => h x y rfl hx
  · refine iff_of_true (Abnf.isLocation_literal hip hclose hp) fun x y heq _ => ?_
    exact absurd (heq ▸ List.mem_append_right x List.mem_cons_self) hclose

theorem contained_of_name (h : isEncoded isNameChar host = true) : Contained host port := by
  have hno : ∀ c : CodePoint, c ≠ '%' ∧ Text.isHex c = false ∧ isNameChar c = false →
      c ∉ host := fun c =>
    not_mem_isEncoded h
  refine ⟨fun hopen => ?_, ⟨hno _ (by decide), hno _ (by decide), hno _ (by decide)⟩,
    fun name hname x y heq _ => ?_⟩
  · exact absurd (List.mem_of_head? hopen) (hno _ (by decide))
  · rw [unbracket?_of_not_mem (hno _ (by decide)) (hno _ (by decide))] at hname
    obtain rfl : host = name := Option.some.inj hname
    exact absurd (heq ▸ List.mem_append_right x List.mem_cons_self) (hno ']' (by decide))

theorem not_contained_of_name (hname : unbracket? host = some name)
    (hopen : host.head? = some (.char '['))
    (hcolon : .char ':' ∉ name) : ¬ Contained host port := by
  intro h
  rcases (mem_of_unbracket? hname).2 (h.address hopen) with hm | hm | hm
  · exact hcolon hm
  · exact absurd hm (by decide)
  · exact absurd hm (by decide)

theorem contained_literal_iff (hname : unbracket? host = some name) (hip : Ip.isIpv6 name = true)
    (hp : port.all (·.all CodePoint.isDigit) = true) :
    Contained host port ↔ isAuthority (.char '[' :: (name ++ .char ']' :: portText port)) = true ∧
      ∀ d ∈ .char '[' :: (name ++ .char ']' :: portText port),
        Components.endsAuthority d = false := by
  constructor
  · intro h
    have hno : ∀ c, c ∉ host → c ∉ name := fun c hc hm => hc ((mem_of_unbracket? hname).1 hm)
    have hat : .char '@' ∉ .char '[' :: (name ++ .char ']' :: portText port) :=
      not_mem_literal (hno _ h.free.2.2) hp rfl (by decide)
    have hslash : .char '/' ∉ name := of_decide_eq_true (Bool.and_eq_true_iff.1 hip).1
    have hfree : ∀ d ∈ name, Components.endsAuthority d = false :=
      Components.endsAuthority_eq_false ⟨hslash, hno _ h.free.1, hno _ h.free.2.1⟩
    have hclose : ∀ d ∈ .char ']' :: portText port, Components.endsAuthority d = false :=
      List.forall_mem_cons.2 ⟨rfl, free_portText hp⟩
    refine ⟨?_, List.forall_mem_cons.2 ⟨rfl, List.forall_mem_append.2 ⟨hfree, hclose⟩⟩⟩
    rw [isAuthority_of_not_mem (Text.cutLast_eq_none.2 hat), isLocation_literal_iff hip hp]
    exact h.close name hname
  · intro h
    obtain ⟨ha, hfree⟩ := h
    have hat := not_mem_of_bracket ha
    have hsub : ∀ c ∈ host, c ∈ .char '[' :: (name ++ .char ']' :: portText port) := by
      intro c hc
      rcases (mem_of_unbracket? hname).2 hc with hm | rfl | rfl
      · exact List.mem_cons_of_mem _ (List.mem_append_left _ hm)
      · exact List.mem_cons_self
      · simp
    have hno : ∀ c, Components.endsAuthority c = true → c ∉ host := fun c hc hm =>
      Text.not_mem_of_free hfree hc (hsub c hm)
    have hcolon : .char ':' ∈ host := (mem_of_unbracket? hname).1 (Ip.colon_mem_of_isIpv6 hip)
    refine ⟨fun _ => hcolon, ⟨hno _ rfl, hno _ rfl, fun hm => hat (hsub _ hm)⟩, fun own hown => ?_⟩
    obtain rfl : name = own := Option.some.inj (hname.symm.trans hown)
    rw [isAuthority_of_not_mem (Text.cutLast_eq_none.2 hat)] at ha
    exact (isLocation_literal_iff hip hp).1 ha

/-- The authority made of a host is one, and ends nowhere in the host, just if the host is
contained. -/
theorem contained_iff (hhost : isHost host = true)
    (hp : port.all (·.all CodePoint.isDigit) = true) :
    Contained host port ↔ isAuthority (bracketed host ++ portText port) = true ∧
      ∀ d ∈ bracketed host ++ portText port, Components.endsAuthority d = false := by
  obtain ⟨name, hname, ⟨hip, heq⟩ | ⟨hreg, hcolon, ⟨rfl, heq⟩ | heq⟩⟩ := bracketed_of_isHost hhost
  · rw [heq, literal_append_portText]
    exact contained_literal_iff hname hip hp
  · have hacc := accepted_name hreg hp
    rw [heq]
    exact iff_of_true (contained_of_name hreg) ⟨hacc.fits, hacc.free⟩
  · have hopen : host.head? = some (.char '[') := by
      rcases unbracket?_eq_some.1 hname with rfl | ⟨rfl, -⟩
      · rfl
      · rw [bracketed, if_neg fun h => hcolon h.1] at heq
        exact absurd heq.symm (bracketed_ne_self host)
    have hclose : .char ']' ∉ name := not_mem_isEncoded hreg (by decide)
    rw [heq, literal_append_portText]
    refine iff_of_false (not_contained_of_name hname hopen hcolon) fun h => ?_
    exact hcolon (colon_mem_of_isAuthority hclose h.1)

end Grammar

theorem Url.parse_eq_notReference {s : Text} :
    parse s = .error (.url (.notReference (.text s))) ↔ Grammar.isReference s = false := by
  constructor
  · intro h
    by_contra hno
    have href : Grammar.isReference s = true := by simpa using hno
    cases hparts : UrlParts.ofText s with
    | error fault => exact nomatch (parse_of_refused href hparts).symm.trans h
    | ok parts =>
      rw [parse_eq href hparts] at h
      rcases parsePort_eq_error (Outcome.map_eq_error.1 h) with ⟨heq, -⟩ | ⟨d, -, -, -, heq⟩
      · exact nomatch heq
      · exact nomatch heq
  · exact fun h => if_pos h

namespace Builder
open Grammar (Contained)
variable {b : Builder} {host path : Text} {query : Option Text}

/-- The composed text is a reference just if its host is contained and its path was encoded as
one. -/
theorem Ingredients.isReference_composed_iff [Codecs] (h : Ingredients b path query)
    (hb : b.host = some host) (hpath : path = [] ∨ path.head? = some (.char '/')) :
    Grammar.isReference (b.composed path query).toText = true ↔
      Contained host b.portDigits ∧ Grammar.isEncoded Grammar.isPathChar path = true := by
  have hapart : b.Apart path := by
    refine ⟨fun _ hnone => ?_, fun _ => hpath.imp_right List.head?_eq_some_iff.1⟩
    exact nomatch hb.symm.trans hnone
  have hlocation : b.location = some (bracketed host ++ AuthorityParts.portText b.portDigits) :=
    Option.map_eq_some_iff.2 ⟨host, hb, rfl⟩
  have hcontained := Grammar.contained_iff (h.host host hb).2 b.all_portDigits
  constructor
  · intro href
    have hfits : Grammar.fits (b.composed path query) = true := h.ofText_toText hapart href ▸ href
    exact ⟨hcontained.2 ⟨h.isAuthority_location hapart href _ hlocation,
      h.free_location href _ hlocation⟩, (Grammar.fits_eq_true.1 hfits).2.2.1⟩
  · intro hpass
    obtain ⟨hauthority, hfree⟩ := hcontained.1 hpass.1
    have hsame : ∀ a ∈ b.location, bracketed host ++ AuthorityParts.portText b.portDigits = a :=
      fun a ha => Option.some.inj (hlocation.symm.trans ha)
    have hsep : (b.composed path query).Separated :=
      h.separated hapart fun a ha => hsame a ha ▸ hfree
    have hne : bracketed host ++ AuthorityParts.portText b.portDigits ≠ [] :=
      List.append_ne_nil_of_left_ne_nil (bracketed_ne_nil (h.host host hb).1) _
    unfold Grammar.isReference
    rw [Components.ofText_toText hsep]
    refine Grammar.fits_eq_true.2 ⟨fun n hn => ?_, fun a ha => ?_, hpass.2,
      isEncoded_queryText h.formatted, nofun⟩
    · exact ⟨h.scheme n hn, .inl (Option.isSome_of_mem hlocation)⟩
    · obtain rfl := hsame a ha
      exact ⟨.inl hne, hauthority⟩

theorem Ingredients.build_eq_notReference [Codecs] (h : Ingredients b path query) :
    b.build = .error (.build (.refused (b.composed path query).toText
        (.notReference (.text (b.composed path query).toText)))) ↔
      Grammar.isReference (b.composed path query).toText = false := by
  rw [h.build_eq, ← Url.parse_eq_notReference]
  constructor
  · intro hrefused
    rcases reading_eq_error hrefused with ⟨why, hparse, heq⟩ | ⟨n, -, heq⟩
    · obtain ⟨-, rfl⟩ := BuildError.refused.inj (Error.build.inj heq)
      exact hparse
    · exact nomatch heq
  · intro hparse
    rw [hparse]
    rfl

theorem ingredients_of_host [Codecs] (hne : host ≠ []) (hhost : Grammar.isHost host = true)
    (port : Int) :
    Ingredients
      { empty "utf-8".points with host := some host, port := port, path := some [.char '/'] }
      [.char '/'] none := by
  have hpath : encodePath "utf-8".points [.char '/'] = .ok [.char '/'] := by rfl
  refine ⟨hpath, rfl, nofun, fun x hx => ?_, nofun⟩
  obtain rfl : host = x := Option.some.inj hx
  exact ⟨hne, hhost⟩

/-- Of the hosts that pass their check the grammar takes those that are contained, and no others.
What is composed with such a host and a path that begins with a slash, if with anything, is refused
as no reference just if the host is not contained with the port, or the path was not encoded as one.
All built-in charsets write a slash first where one is, and those that extend ASCII encode a path as
one. -/
theorem isReference_iff_contained [Codecs] (hne : host ≠ []) (hhost : Grammar.isHost host = true) :
    (Grammar.isReference (.char '/' :: .char '/' :: bracketed host ++ [.char '/']) = true ↔
      Contained host none) ∧
    ∀ (b : Builder) (path : Text) (query : Option Text), b.host = some host →
      Ingredients b path query →
        (path = [] ∨ path.head? = some (.char '/') →
          (b.build = .error (.build (.refused (b.composed path query).toText
              (.notReference (.text (b.composed path query).toText)))) ↔
            ¬ Contained host b.portDigits ∨
              Grammar.isEncoded Grammar.isPathChar path = false)) ∧
        ∀ cs, Charset.ofName? b.charset = some cs → (path = [] ∨ path.head? = some (.char '/')) ∧
          (cs.extendsAscii = true → Grammar.isEncoded Grammar.isPathChar path = true) := by
  constructor
  · let b : Builder :=
      { empty "utf-8".points with host := some host, port := -1, path := some [.char '/'] }
    have hin : Ingredients b [.char '/'] none := ingredients_of_host hne hhost (-1)
    have htext : (b.composed [.char '/'] none).toText =
        .char '/' :: .char '/' :: bracketed host ++ [.char '/'] := by
      simp [b, composed, location, portDigits, empty, Components.toText, Components.schemeText,
        Components.authorityText, Components.queryText, Components.fragmentText,
        AuthorityParts.portText]
    rw [← htext, hin.isReference_composed_iff rfl (.inr rfl)]
    exact and_iff_left rfl
  · intro b path query hb hin
    refine ⟨fun hpath => ?_, fun cs hcs => ⟨?_, fun ha => isEncoded_encodePath hcs ha hin.encoded⟩⟩
    · rw [hin.build_eq_notReference, ← Bool.not_eq_true, hin.isReference_composed_iff hb hpath,
        not_and_or, Bool.not_eq_true]
    · have hapart := detached_of_charset hcs (Option.isSome_of_mem hb) path hin.encoded
      exact (hapart.host (Option.isSome_of_mem hb)).imp_right List.head?_eq_some_iff.2

/-- A closing bracket in the zone is let through by itself, and not before a port. -/
theorem isReference_iff_contained_of_zone :
    let host := "::1%a]b".points
    let b : Builder :=
      { empty "utf-8".points with host := some host, port := 80, path := some [.char '/'] }
    let text := "//[::1%a]b]:80/".points
    host ≠ [] ∧ Grammar.isHost host = true ∧
      Grammar.isReference (.char '/' :: .char '/' :: bracketed host ++ [.char '/']) = true ∧
        b.build = .error (.build (.refused text (.notReference (.text text)))) := by
  intro host b text
  have hne : host ≠ [] := List.cons_ne_nil _ _
  have hhost : Grammar.isHost host = true := by decide +kernel
  have hsplit : host = "::1%a".points ++ [.char ']', .char 'b'] := by decide
  have hfirst : .char ']' ∉ "::1%a".points := by decide
  have hcontained : Contained host none := by
    refine ⟨fun h => absurd h (by decide), by decide, fun name hname x y heq hx => ⟨rfl, ?_⟩⟩
    obtain rfl : host = name := Option.some.inj hname
    obtain ⟨-, rfl⟩ := Text.append_cons_inj_of_first (hsplit.symm.trans heq) hfirst hx
    decide
  have hstray : ¬ Contained host b.portDigits := by
    intro h
    have hport : b.portDigits = none := (h.close host rfl _ _ hsplit hfirst).1
    exact nomatch hport
  have hin : Ingredients b [.char '/'] none := ingredients_of_host hne hhost 80
  exact ⟨hne, hhost, (isReference_iff_contained hne hhost).1.2 hcontained,
    (((isReference_iff_contained hne hhost).2 b [.char '/'] none rfl hin).1 (.inr rfl)).2
      (.inl hstray)⟩

/-- A name in brackets and a zone with a question mark pass the check of a host, and what is
composed with them is refused. -/
theorem not_isReference_of_brackets :
    let name := "[abc]".points
    let zone := "::1%a?b".points
    (name ≠ [] ∧ Grammar.isHost name = true ∧
      Grammar.isReference (.char '/' :: .char '/' :: bracketed name ++ [.char '/']) = false) ∧
    (zone ≠ [] ∧ Grammar.isHost zone = true ∧
      Grammar.isReference (.char '/' :: .char '/' :: bracketed zone ++ [.char '/']) = false) ∧
    { empty "utf-8".points with host := some name, path := some [.char '/'] }.build =
      .error (.build (.refused "//[abc]/".points (.notReference (.text "//[abc]/".points)))) :=
  ⟨⟨by decide, by decide +kernel, by decide +kernel⟩,
    ⟨by decide, by decide +kernel, by decide +kernel⟩, by rfl⟩

end Builder

end HttpUri
