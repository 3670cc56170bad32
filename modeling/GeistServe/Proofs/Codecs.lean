import GeistServe.Client.Strings
import GeistServe.Proofs.Events
import GeistServe.Proofs.Spaced

/-!
# Strings come back

Four writers of string literals and two ways to read one. Each writer spells a byte
in one of three ways (`Spelled`), and both readers undo all three; so any writer
agrees with any reader, wherever the literal stands as the value of a member.
-/

namespace GeistServe.Proofs

open GeistServe.Lib GeistServe.Geistd GeistServe.Json GeistServe.Client

/-- The literals for a string, writer by writer. `app_quote` appends to a buffer
of the app that has room for it; `geistd_tokenize` writes its literal into the
header. -/
inductive Literal (s : Bytes) : Bytes → Prop where
  | sbJsonStr : Literal s (sbJsonStr s)
  | appQuote {b : App.Buffer} {text : Bytes} (hok : (b.quote s).failed = false)
      (htext : (b.quote s).data = b.data ++ text) : Literal s text
  | gdPutJson : Literal s (gdPutJson s)
  | tokenize {hdr text : Bytes} (h : gdTokenize s = some hdr)
      (htext : hdr = lit "\x7b\"op\":\"tokenize\",\"text\":" ++ text ++ lit "\x7d") : Literal s text

/-- A literal is a quoted string, spelled byte by byte. -/
theorem Literal.spelled {s text : Bytes} (h : Literal s text) :
    ∃ esc : UInt8 → Bytes, (∀ c, Spelled c (esc c)) ∧ text = 34 :: (s.flatMap esc ++ [34]) := by
  cases h with
  | sbJsonStr => exact ⟨sbEscape, sbEscape_spelled, rfl⟩
  | @appQuote b _ hok htext =>
      refine ⟨gdEscape, gdEscape_spelled, ?_⟩
      refine List.append_cancel_left (htext.symm.trans ?_)
      exact ((writes_quote b s).data hok).2
  | gdPutJson => exact ⟨gdEscape, gdEscape_spelled, rfl⟩
  | @tokenize hdr _ h htext =>
      refine ⟨tokenizeEscape, tokenizeEscape_spelled, ?_⟩
      have hopen : lit "\x7b\"op\":\"tokenize\",\"text\":\"" =
          lit "\x7b\"op\":\"tokenize\",\"text\":" ++ [34] := by decide
      have hclose : lit "\"\x7d" = [34] ++ lit "\x7d" := by decide
      unfold gdTokenize at h
      split at h
      · cases h
      · injection h with h
        rw [htext, hopen, hclose] at h
        simp only [List.append_assoc] at h
        have h := List.append_cancel_left h
        simp only [← List.append_assoc] at h
        have h := List.append_cancel_right h
        simp only [List.singleton_append] at h
        exact h.symm

/-! ## Reading a member -/

theorem lookup_append {key : Bytes} {v : Tree} {front : List (Bytes × Tree)}
    (back : List (Bytes × Tree)) (hnew : ∀ m ∈ front, m.1 ≠ key) : lookup key (front ++ (key, v) :: back) = some v := by
  induction front with
  | nil => exact lookup_cons_eq key v back
  | cons m front ih =>
      rw [List.cons_append, lookup_cons_ne _ _ (hnew m List.mem_cons_self)]
      exact ih fun m hm => hnew m (List.mem_cons_of_mem _ hm)

theorem validMembers_append {ms ns : List (Bytes × Tree)} (h : ValidMembers ms)
    (h' : ValidMembers ns) : ValidMembers (ms ++ ns) := by
  induction ms with
  | nil => exact h'
  | cons m ms ih => exact ⟨h.1, h.2.1, ih h.2.2⟩

/-- The client parses what `json_parse` accepts, and finds what `json_get` finds
under the root. -/
theorem gdParse_of_jsonParse {src : Bytes} {j : Doc} (h : jsonParse src = some j) :
    gdParse src = some j ∧ ∀ key, gdFind j key = j.get 0 key := by
  unfold jsonParse at h
  have hcap : GD_TOK_CAP = JSON_TOK_CAP := rfl
  rw [gdParse, hcap]
  split at h
  · cases h
  · cases h
  · next t rest hparse =>
      split at h
      · next hroot =>
          injection h with h
          subst h
          rw [hparse]
          have hobj : (t.type == .object) = true := beq_iff_eq.mpr hroot.1
          refine ⟨if_pos hobj, fun key => ?_⟩
          show gdFind ⟨src, t :: rest⟩ key =
            if (t.type == .object) = true then gdFind ⟨src, t :: rest⟩ key else none
          rw [if_pos hobj]
      · cases h

section

variable {s key raw : Bytes} {ms : List (Bytes × Tree)} {j : Doc} {i : Nat}

theorem shown_member (h : Shows j i (.obj ms)) (hraw : lookup key ms = some (.str raw)) :
    ∃ k, j.get i key = some k ∧ Shows j k (.str raw) := by
  rcases h.found key with ⟨hnone, _⟩ | ⟨w, k, hw, hk, hshows⟩
  · cases hnone.symm.trans hraw
  · cases hw.symm.trans hraw
    exact ⟨k, hk, hshows⟩

theorem strdup_member (h : Shows j i (.obj ms)) (hraw : lookup key ms = some (.str raw)) :
    j.strdup (j.get i key) = some ((unescape raw).takeWhile (· ≠ 0)) := by
  obtain ⟨k, hk, hshows⟩ := shown_member h hraw
  rw [hk, hshows.strdup, Tree.str?]

theorem gdString_member (h : Shows j i (.obj ms)) (hraw : lookup key ms = some (.str raw)) :
    gdString j (j.get i key) = (gdUnescape raw).map (·.takeWhile (· ≠ 0)) := by
  obtain ⟨k, hk, hshows⟩ := shown_member h hraw
  obtain ⟨t, ht, htype, htext⟩ := hshows.raw rfl
  rw [hk, gdString, Doc.str?, Option.bind_some]
  have hstr : (t.type == .string) = true := beq_iff_eq.mpr htype
  rw [ht, Option.filter_some, hstr, if_pos rfl, Option.bind_some, htext]

theorem takeWhile_self (hnul : (0 : UInt8) ∉ s) : s.takeWhile (· ≠ 0) = s :=
  List.takeWhile_eq_self_iff.mpr fun _ hc => decide_eq_true fun h => hnul (h ▸ hc)

end

/-- Whatever writer made the literal, and whatever other members the object has:
both readers get the string back, however the text is spaced; the lookup of the
daemon does so in any object of a text, the client's in the root. -/
theorem codecs_agree {s text key : Bytes} {front back : List (Bytes × Tree)}
    (hnul : (0 : UInt8) ∉ s) (htext : Literal s text) (hfront : ValidMembers front)
    (hkey : Quotable key) (hback : ValidMembers back) (hnew : ∀ m ∈ front, m.1 ≠ key) :
    ∃ v : Tree, v.print = text ∧ v.Valid ∧
      (∀ j i, Shows j i (.obj (front ++ (key, v) :: back)) →
        j.strdup (j.get i key) = some s) ∧
      ∀ src, Spaced src (Tree.obj (front ++ (key, v) :: back)).print →
        (Tree.obj (front ++ (key, v) :: back)).count ≤ JSON_TOK_CAP →
        (∃ j, jsonParse src = some j ∧ j.strdup (j.get 0 key) = some s) ∧
        ∃ j, gdParse src = some j ∧ gdString j (gdFind j key) = some s := by
  obtain ⟨esc, hesc, rfl⟩ := htext.spelled
  obtain ⟨hquot, hread⟩ := Escapes.flatMap (fun c => (hesc c).escapes) s
  have hlookup := lookup_append back (v := .str (s.flatMap esc)) hnew
  have hstrdup : ∀ j i, Shows j i (.obj (front ++ (key, .str (s.flatMap esc)) :: back)) →
      j.strdup (j.get i key) = some s := by
    intro j i hshows
    rw [strdup_member hshows hlookup, hread, takeWhile_self hnul]
  refine ⟨.str (s.flatMap esc), by rw [Tree.print], hquot, hstrdup, fun src hsrc hcap => ?_⟩
  have hvalid : ValidMembers (front ++ (key, .str (s.flatMap esc)) :: back) :=
    validMembers_append hfront ⟨hkey, hquot, hback⟩
  obtain ⟨j, hj, _, hshows⟩ := ObjectText.parse ⟨hvalid, hsrc⟩ hcap
  obtain ⟨hgd, hfind⟩ := gdParse_of_jsonParse hj
  refine ⟨⟨j, hj, hstrdup j 0 hshows⟩, j, hgd, ?_⟩
  rw [hfind, gdString_member hshows hlookup, gdUnescape_flatMap hesc, Option.map_some,
    takeWhile_self hnul]

/-- A quote, a backslash, a line feed and a byte above 0x7F, by `gd_put_json`,
behind another member and a line feed. -/
theorem codecs_agree_escapes : ∃ src j j', 10 ∈ src ∧ jsonParse src = some j ∧
    j.strdup (j.get 0 (lit "text")) = some [34, 92, 10, 200] ∧ gdParse src = some j' ∧
    gdString j' (gdFind j' (lit "text")) = some [34, 92, 10, 200] := by
  have hop : Quotable (lit "op") := quotable_plain (by decide)
  have htext : Quotable (lit "text") := quotable_plain (by decide)
  have hfront : ValidMembers [(lit "op", .prim [49])] :=
    ⟨hop, ⟨⟨49, rfl, by decide⟩, by decide⟩, trivial⟩
  have hback : ValidMembers [] := trivial
  have hnew : ∀ m ∈ [(lit "op", Tree.prim [49])], m.1 ≠ lit "text" := by
    intro m hm
    rw [List.mem_singleton.mp hm]
    decide
  obtain ⟨v, hv, hvalid, _, hread⟩ := codecs_agree (s := [34, 92, 10, 200]) (by decide)
    .gdPutJson hfront htext hback hnew
  have hms : ValidMembers [(lit "op", .prim [49]), (lit "text", v)] :=
    ⟨hop, ⟨⟨49, rfl, by decide⟩, by decide⟩, htext, hvalid, trivial⟩
  have hcount : (Tree.obj [(lit "op", .prim [49]), (lit "text", v)]).count ≤ JSON_TOK_CAP := by
    cases v with
    | str raw =>
        show 5 ≤ 4096
        decide
    | prim raw =>
        show 5 ≤ 4096
        decide
    | arr xs =>
        rw [Tree.print] at hv
        cases hv
    | obj ms =>
        rw [Tree.print] at hv
        cases hv
  obtain ⟨⟨j, hj, hs⟩, j', hj', hs'⟩ := hread _ (.space (c := 10) (.inr (.inr (.inl rfl)))
    (ObjectText.print hms).2) hcount
  exact ⟨_, j, j', List.mem_cons_self, hj, hs, hj', hs'⟩

end GeistServe.Proofs
