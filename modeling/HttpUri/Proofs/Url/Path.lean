import HttpUri.Proofs.Url.Encoding

/-! Encoded paths fit the grammar of paths, and encoding one again changes nothing. -/
namespace HttpUri.Builder
variable {charset p s e : Text} {cs : Charset}

theorem escapeStray_cons_of_ne {c : CodePoint} (h : c ≠ '%') (s : Text) :
    escapeStray (c :: s) = c :: escapeStray s := by
  rw [escapeStray, if_neg fun hc => h hc.1]
  rfl

theorem escapeStray_of_not_mem (h : .char '%' ∉ s) : escapeStray s = s := by
  induction s with
  | nil => rfl
  | cons c rest ih =>
    rw [List.mem_cons, not_or] at h
    rw [escapeStray_cons_of_ne (Ne.symm h.1), ih h.2]

theorem startsPair_eq_true (h : startsPair s = true) :
    ∃ high low t, s = high :: low :: t ∧ Text.isHex high = true ∧ Text.isHex low = true := by
  match s, h with
  | high :: low :: t, h =>
    obtain ⟨hh, hl⟩ := Bool.and_eq_true_iff.1 h
    exact ⟨high, low, t, rfl, hh, hl⟩

@[simp] theorem all_has_escapeStray (p : Text) : (escapeStray p).all cs.has = p.all cs.has := by
  have hhas : ∀ c, Percent.isAscii c = true → cs.has c = true := fun _ => Charset.has_of_isAscii
  induction p with
  | nil => rfl
  | cons c rest ih =>
    rw [escapeStray, List.all_append, List.all_cons, ih]
    split
    · next hc =>
      rw [hc.1, hhas '%' rfl, List.all_cons, List.all_cons, List.all_cons, hhas '%' rfl,
        hhas '2' rfl, hhas '5' rfl]
      rfl
    · rw [List.all_cons, List.all_nil, Bool.and_true]

def pathText (cs : Charset) (p : Text) : Text :=
  Percent.encodeBytes isPathSafe (cs.bytes (escapeStray p))

/-- A path has an encoded form just when the charset has its characters. -/
theorem encodePath_eq_ok [Codecs] (hcs : Charset.ofName? charset = some cs) :
    encodePath charset p = .ok e ↔ p.all cs.has = true ∧ pathText cs p = e := by
  rw [encodePath, Percent.encode_eq_ok hcs, all_has_escapeStray, pathText]

theorem pathText_cons_of_ne {c : CodePoint} (h : c ≠ '%') (s : Text) : pathText cs (c :: s) =
    Percent.encodeBytes isPathSafe ((cs.encodeChar? c).getD []) ++ pathText cs s := by
  rw [pathText, escapeStray_cons_of_ne h, Charset.bytes_cons, Percent.encodeBytes_append, pathText]

theorem encodeByte_of_isPathChar {c : CodePoint} (hc : Percent.isAscii c = true) :
    c = '%' ∨ Grammar.isPathChar c = true →
      Percent.encodeByte isPathSafe (UInt8.ofNat c.toNat) = [c] :=
  forall_ascii (P := fun c => c = '%' ∨ Grammar.isPathChar c = true →
    Percent.encodeByte isPathSafe (UInt8.ofNat c.toNat) = [c]) (by decide +kernel) hc

theorem encodeBytes_of_isPathChar (ha : cs.extendsAscii = true) {c : CodePoint}
    (hascii : Percent.isAscii c = true) (hc : c = '%' ∨ Grammar.isPathChar c = true) :
    Percent.encodeBytes isPathSafe ((cs.encodeChar? c).getD []) = [c] := by
  rw [Charset.encodeChar?_of_ascii ha (of_decide_eq_true hascii), Option.getD_some,
    Percent.encodeBytes, List.flatMap_singleton, encodeByte_of_isPathChar hascii hc]

theorem pathText_cons_of_isPathChar (ha : cs.extendsAscii = true) {c : CodePoint}
    (hascii : Percent.isAscii c = true) (hc : Grammar.isPathChar c = true) (s : Text) :
    pathText cs (c :: s) = c :: pathText cs s := by
  have hne : c ≠ '%' := by
    rintro rfl
    exact absurd hc (by decide)
  rw [pathText_cons_of_ne hne, encodeBytes_of_isPathChar ha hascii (.inr hc)]
  rfl

theorem pathText_cons_of_isHex (ha : cs.extendsAscii = true) {c : CodePoint}
    (hc : Text.isHex c = true) (s : Text) : pathText cs (c :: s) = c :: pathText cs s :=
  pathText_cons_of_isPathChar ha (Text.isAscii_of_isHex hc) (Grammar.isPathChar_of_isHex hc) s

theorem pathText_percent (ha : cs.extendsAscii = true) (s : Text) : pathText cs (.char '%' :: s) =
    if startsPair s then .char '%' :: pathText cs s
    else .char '%' :: .char '2' :: .char '5' :: pathText cs s := by
  have hpercent := encodeBytes_of_isPathChar ha (c := .char '%') rfl (.inl rfl)
  have htwo := encodeBytes_of_isPathChar ha (c := .char '2') rfl (.inr rfl)
  have hfive := encodeBytes_of_isPathChar ha (c := .char '5') rfl (.inr rfl)
  rw [pathText, escapeStray, Charset.bytes_append, Percent.encodeBytes_append, ← pathText]
  cases startsPair s with
  | true =>
    rw [if_neg (by simp), Charset.bytes_cons, Charset.bytes_nil, List.append_nil, hpercent]
    rfl
  | false =>
    rw [if_pos ⟨rfl, rfl⟩]
    simp only [Charset.bytes_cons, Charset.bytes_nil, Percent.encodeBytes_append, hpercent, htwo,
      hfive]
    rfl

theorem isEncoded_pathText (ha : cs.extendsAscii = true) (p : Text) :
    Grammar.isEncoded Grammar.isPathChar (pathText cs p) = true := by
  induction p with
  | nil => rfl
  | cons c rest ih =>
    by_cases hc : c = '%'
    · subst hc
      rw [pathText_percent ha]
      cases hs : startsPair rest with
      | false => exact ih
      | true =>
        obtain ⟨high, low, t, rfl, hh, hl⟩ := startsPair_eq_true hs
        rw [pathText_cons_of_isHex ha hh, pathText_cons_of_isHex ha hl] at ih ⊢
        exact Grammar.isEncoded_triplet hh hl ih
    · rw [pathText_cons_of_ne hc]
      refine Grammar.isEncoded_encodeBytes (fun b hb hsafe => ?_) ih
      have hne : CodePoint.ofNat b.toNat ≠ '%' := fun heq =>
        hc (Charset.eq_of_mem_encodeChar? ha rfl hb heq)
      exact ⟨hne, (isPathChar_of_byte b hsafe).resolve_left hne⟩

/-- A path of ASCII characters that fits the grammar is its own encoded form. -/
theorem pathText_eq_self (ha : cs.extendsAscii = true)
    (hs : ∀ c ∈ s, Percent.isAscii c = true)
    (h : Grammar.isEncoded Grammar.isPathChar s = true) : pathText cs s = s := by
  induction s using Grammar.isEncoded.induct with
  | case1 => rfl
  | case2 high low rest ih =>
    rw [Grammar.isEncoded, Bool.and_eq_true, Bool.and_eq_true] at h
    obtain ⟨⟨hh, hl⟩, hrest⟩ := h
    have hpair : startsPair (high :: low :: rest) = true := by rw [startsPair, hh, hl]; rfl
    rw [pathText_percent ha, if_pos hpair, pathText_cons_of_isHex ha hh,
      pathText_cons_of_isHex ha hl, ih (fun c hc => hs c (by simp [hc])) hrest]
  | case3 c rest hno ih =>
    rw [Grammar.isEncoded, Bool.and_eq_true, Bool.and_eq_true] at h
    · rw [pathText_cons_of_isPathChar ha (hs c List.mem_cons_self) h.1.2,
        ih (fun d hd => hs d (List.mem_cons_of_mem c hd)) h.2]
    · exact hno

theorem isAscii_of_mem_pathText {c : CodePoint} (hc : c ∈ pathText cs p) :
    Percent.isAscii c = true := by
  have hbyte : ∀ b : UInt8, (Percent.isUnreserved b || isPathSafe b) = true →
      Percent.isAscii (CodePoint.ofNat b.toNat) = true := forall_byte (by decide +kernel)
  rcases Percent.mem_encodeBytes hc with rfl | hx | ⟨b, hb, rfl⟩
  · rfl
  · exact Text.isAscii_of_isHex hx
  · exact hbyte b hb

theorem isEncoded_encodePath [Codecs] (hcs : Charset.ofName? charset = some cs)
    (ha : cs.extendsAscii = true) (h : encodePath charset p = .ok e) :
    Grammar.isEncoded Grammar.isPathChar e = true := by
  obtain ⟨-, rfl⟩ := (encodePath_eq_ok hcs).1 h
  exact isEncoded_pathText ha p

/-- Encoding an encoded path changes nothing. -/
theorem encodePath_encoded [Codecs] (hcs : Charset.ofName? charset = some cs)
    (ha : cs.extendsAscii = true) (h : encodePath charset p = .ok e) :
    encodePath charset e = .ok e := by
  obtain ⟨-, rfl⟩ := (encodePath_eq_ok hcs).1 h
  have hascii : ∀ c ∈ pathText cs p, Percent.isAscii c = true := fun c => isAscii_of_mem_pathText
  exact (encodePath_eq_ok hcs).2 ⟨(Charset.bytes_of_ascii ha hascii).1,
    pathText_eq_self ha hascii (isEncoded_pathText ha p)⟩

theorem head?_encodeByte (safe : UInt8 → Bool) (b : UInt8) (t : Text) :
    (Percent.encodeByte safe b ++ t).head? = some (.char '%') ∨
      (Percent.encodeByte safe b ++ t).head? = some (CodePoint.ofNat b.toNat) := by
  unfold Percent.encodeByte
  split
  · exact .inr rfl
  · exact .inl rfl

theorem head?_pathText (ha : cs.extendsAscii = true) (hp : p.all cs.has = true) {c : CodePoint}
    (hascii : Percent.isAscii c = true) (hc : Grammar.isPathChar c = true) :
    (pathText cs p).head? = some c ↔ p.head? = some c := by
  have hne : '%' ≠ c := by
    rintro rfl
    exact absurd hc (by decide)
  cases p with
  | nil => exact Iff.rfl
  | cons d rest =>
    by_cases hd : d = c
    · subst hd
      rw [pathText_cons_of_isPathChar ha hascii hc]
      exact Iff.rfl
    · refine iff_of_false (fun h => ?_) (fun h => hd (Option.some.inj h))
      by_cases hpercent : d = '%'
      · subst hpercent
        rw [pathText_percent ha] at h
        split at h
        · exact hne (Option.some.inj h)
        · exact hne (Option.some.inj h)
      · rw [pathText_cons_of_ne hpercent] at h
        have hhas := List.all_eq_true.1 hp d List.mem_cons_self
        obtain ⟨bytes, hbytes⟩ := Option.isSome_iff_exists.1 hhas
        cases bytes with
        | nil => exact Charset.encodeChar?_ne_nil hbytes
        | cons b bytes =>
          have hb : b ∈ (cs.encodeChar? d).getD [] := by
            rw [hbytes]
            exact List.mem_cons_self
          rw [hbytes, Option.getD_some, Percent.encodeBytes, List.flatMap_cons,
            List.append_assoc] at h
          rcases head?_encodeByte isPathSafe b _ with hhead | hhead
          · exact hne (Option.some.inj (hhead.symm.trans h))
          · have hsame := Option.some.inj (hhead.symm.trans h)
            exact hd (Charset.eq_of_mem_encodeChar? ha hascii hb hsame)

/-- Text of ASCII characters of the grammar of paths begins the encoded form of a path just when it
begins the path. -/
theorem prefix_pathText (ha : cs.extendsAscii = true) {n : Text}
    (hn : ∀ c ∈ n, Percent.isAscii c = true ∧ Grammar.isPathChar c = true)
    (hp : p.all cs.has = true) : n <+: pathText cs p ↔ n <+: p := by
  induction n generalizing p with
  | nil => exact iff_of_true List.nil_prefix List.nil_prefix
  | cons c n ih =>
    obtain ⟨⟨hascii, hc⟩, hrest⟩ := List.forall_mem_cons.1 hn
    have hhead := head?_pathText ha hp hascii hc
    have hstart : ∀ l : Text, c :: n <+: l → l.head? = some c := by
      rintro l ⟨t, rfl⟩
      rfl
    by_cases hfirst : p.head? = some c
    · obtain ⟨t, rfl⟩ := List.head?_eq_some_iff.1 hfirst
      rw [List.all_cons, Bool.and_eq_true] at hp
      rw [pathText_cons_of_isPathChar ha hascii hc, List.prefix_cons_inj, List.prefix_cons_inj]
      exact ih hrest hp.2
    · exact iff_of_false (fun h => hfirst (hhead.1 (hstart _ h))) fun h => hfirst (hstart p h)

theorem pathText_slash (ha : cs.extendsAscii = true) (p : Text) :
    pathText cs (.char '/' :: p) = .char '/' :: pathText cs p :=
      pathText_cons_of_isPathChar ha rfl rfl p

theorem slashes_pathText (ha : cs.extendsAscii = true) (hp : p.all cs.has = true) :
    (∃ t, pathText cs (.char '/' :: p) = .char '/' :: .char '/' :: t) ↔ ∃ t,
      p = .char '/' :: t := by
  simp only [pathText_slash ha, List.cons.injEq, true_and, ← List.head?_eq_some_iff,
    head?_pathText ha hp (c := .char '/') rfl rfl]

end HttpUri.Builder
