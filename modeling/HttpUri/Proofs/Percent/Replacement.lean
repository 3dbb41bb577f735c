import HttpUri.Proofs.Percent.Failure

/-! Decoding with replacement: no text that is not empty decodes to the empty one. -/
namespace HttpUri

namespace ByteReader
variable {σ : Type} {r : ByteReader σ}

/-- If nothing is given out, something is held in the state. -/
def Keeps (r : ByteReader σ) (p : Text × σ) : Prop := p.1 = [] → p.2 ≠ r.start

/-- No byte is lost: what is held at the end is given out. -/
structure GivesAll (r : ByteReader σ) : Prop where
  step : ∀ s b, r.Keeps (r.step s b)
  finish : ∀ s, s ≠ r.start → r.finish s ≠ []

theorem readFrom_ne_nil (h : r.GivesAll) {s : σ} {bytes : List UInt8}
    (hs : s ≠ r.start ∨ bytes ≠ []) : r.readFrom s bytes ≠ [] := by
  induction bytes generalizing s with
  | nil => exact h.finish s (hs.resolve_right fun hne => hne rfl)
  | cons b rest ih =>
    change (r.step s b).1 ++ r.readFrom (r.step s b).2 rest ≠ []
    by_cases hout : (r.step s b).1 = []
    · rw [hout, List.nil_append]
      exact ih (.inl (h.step s b hout))
    · exact List.append_ne_nil_of_left_ne_nil hout _

theorem read_ne_nil (h : r.GivesAll) {bytes : List UInt8} (hne : bytes ≠ []) :
    r.read bytes ≠ [] :=
  readFrom_ne_nil h (.inr hne)

end ByteReader

theorem Utf8.keeps_first (n : Nat) : reader.Keeps (first n) := by
  unfold first
  repeat' refine iteInduction (fun _ => ?_) fun _ => ?_
  all_goals nofun

theorem Utf8.givesAll : reader.GivesAll where
  step s b := by
    cases s with
    | idle => exact keeps_first b.toNat
    | within bits missing least greatest =>
      refine iteInduction (fun _ => ?_) fun _ => nofun
      exact iteInduction (fun _ => nofun) fun _ => nofun
  finish s hs := by
    cases s with
    | idle => exact absurd rfl hs
    | within bits missing least greatest => nofun

theorem Utf16.keeps_first (u : Nat) : reader.Keeps (first u) := by
  unfold first
  repeat' refine iteInduction (fun _ => ?_) fun _ => ?_
  all_goals nofun

theorem Utf16.givesAll : reader.GivesAll where
  step s b := by
    obtain ⟨upper, low⟩ := s
    cases low with
    | none => nofun
    | some low =>
      cases upper with
      | none => exact keeps_first (low + 256 * b.toNat)
      | some upper => exact iteInduction (fun _ => nofun) fun _ => nofun
  finish s hs := by
    have hleft : reader.finish s = [replacement] := if_neg hs
    exact hleft ▸ List.cons_ne_nil _ _

/-- Whatever the bytes, something is read. -/
theorem Charset.decode_ne_nil (cs : Charset) {bytes : List UInt8} (h : bytes ≠ []) :
    cs.decode bytes ≠ [] := by
  cases cs with
  | utf8 => exact ByteReader.read_ne_nil Utf8.givesAll h
  | utf16le => exact ByteReader.read_ne_nil Utf16.givesAll h
  | latin1 | ascii | windows1252 => exact mt List.map_eq_nil_iff.1 h

namespace Percent
variable {cs : Charset} {charset run s t : Text}

theorem decodeBytes_ne_nil (h : s ≠ []) : decodeBytes s ≠ [] := by
  obtain ⟨c, rest, rfl⟩ := List.exists_cons_of_ne_nil h
  by_cases hc : c = '%'
  · subst hc
    by_cases hpair : ∃ high low tail b, rest = high :: low :: tail ∧ byte? high low = some b
    · obtain ⟨high, low, tail, b, rfl, hb⟩ := hpair
      rw [decodeBytes_of_byte hb]
      exact List.cons_ne_nil _ _
    · have hstray : ∀ high low tail, rest = high :: low :: tail → byte? high low = none :=
        fun high low tail heq => Option.eq_none_iff_forall_ne_some.2 fun b hb =>
          hpair ⟨high, low, tail, b, heq, hb⟩
      rw [decodeBytes_of_stray hstray]
      exact List.cons_ne_nil _ _
  · rw [decodeBytes_cons_of_ne hc]
    exact List.cons_ne_nil _ _

theorem decodeAfter_ne_nil (hdecode : decodeAfter cs.codec run s = .ok t)
    (h : run ≠ [] ∨ s ≠ []) : t ≠ [] := by
  induction s generalizing run t with
  | nil =>
    have hrun : run.reverse ≠ [] :=
      mt List.reverse_eq_nil_iff.1 (h.resolve_right fun hne => hne rfl)
    rw [decodeAfter, decodeRun, if_neg hrun] at hdecode
    obtain rfl := Except.ok.inj hdecode
    exact cs.decode_ne_nil (decodeBytes_ne_nil hrun)
  | cons c rest ih =>
    rw [decodeAfter] at hdecode
    split at hdecode
    · exact ih hdecode (.inl (List.cons_ne_nil c run))
    · obtain ⟨read, -, hdecode⟩ := Outcome.bind_eq_ok.1 hdecode
      obtain ⟨tail, -, hdecode⟩ := Outcome.bind_eq_ok.1 hdecode
      obtain rfl := Except.ok.inj hdecode
      exact List.append_ne_nil_of_right_ne_nil _ (List.cons_ne_nil _ _)

theorem decode_ne_nil [Codecs] (hcs : Charset.ofName? charset = some cs)
    (h : decode charset s = .ok t) (hs : s ≠ []) : t ≠ [] := by
  unfold decode at h
  split at h
  · obtain rfl : s = t := Except.ok.inj h
    exact hs
  · obtain ⟨codec, hname, h⟩ := Outcome.bind_eq_ok.1 h
    obtain rfl := Except.ok.inj ((Codec.find_of_ofName? hcs).symm.trans hname)
    exact decodeAfter_ne_nil h (.inr hs)

end Percent
end HttpUri
