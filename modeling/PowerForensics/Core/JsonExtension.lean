import PowerForensics.Core.JsonRefinement

/-! # JSON texts that go on

A reader that succeeds and leaves something behind does the same when the text goes on
after it. Containers and strings end with a character of their own, so an object is
read in the same way whatever follows it, and no object is the beginning of another:
a text that is cut before its end is no JSON.
-/

namespace PowerForensics.Json

/-- What is left, the reader leaves in front of whatever follows. -/
def Extends {α : Type} (reader : Reader α) : Prop :=
  ∀ {cs rest : List Char} {a : α}, reader.run cs = some (a, rest) → rest ≠ [] →
    ∀ extra, reader.run (cs ++ extra) = some (a, rest ++ extra)

/-! ## Blanks and numbers -/

theorem dropWhile_extend {p : Char → Bool} {cs : List Char} (hne : cs.dropWhile p ≠ [])
    (extra : List Char) : (cs ++ extra).dropWhile p = cs.dropWhile p ++ extra := by
  rw [List.dropWhile_append, if_neg]
  simpa using hne

theorem skipBlanks_extend {cs : List Char} (hne : skipBlanks cs ≠ []) (extra : List Char) :
    skipBlanks (cs ++ extra) = skipBlanks cs ++ extra := dropWhile_extend hne extra

theorem skipBlanks_eq_nil {cs : List Char} (hnil : skipBlanks cs = []) :
    ∀ c ∈ cs, isBlank c = true := by
  induction cs with
  | nil => simp
  | cons c cs ih =>
      rw [skipBlanks, List.dropWhile_cons] at hnil
      split at hnil
      next hc =>
        intro d hd
        cases hd with
        | head => exact hc
        | tail _ hd => exact ih hnil d hd
      next => cases hnil

theorem head?_extend {cs : List Char} (hne : cs ≠ []) (extra : List Char) :
    (cs ++ extra).head? = cs.head? := by
  cases cs with
  | nil => exact absurd rfl hne
  | cons c cs => rfl

theorem ne_nil_of_suffix {cs ds : List Char} (hsuffix : cs <:+ ds) (hne : cs ≠ []) : ds ≠ [] := by
  rintro rfl
  exact hne (List.suffix_nil.mp hsuffix)

theorem skipChar_extend {p : Char → Bool} {cs : List Char} (hne : cs ≠ []) (extra : List Char) :
    skipChar p (cs ++ extra) = skipChar p cs ++ extra := by
  rw [skipChar, skipChar, head?_extend hne]
  split
  · rw [List.tail_append_of_ne_nil hne]
  · rfl

theorem skipFraction_extend {cs : List Char} (hne : skipFraction cs ≠ []) (extra : List Char) :
    skipFraction (cs ++ extra) = skipFraction cs ++ extra := by
  have hcs := ne_nil_of_suffix (skipFraction_suffix cs) hne
  unfold skipFraction at hne ⊢
  rw [head?_extend hcs]
  split at hne
  next hpoint =>
    rw [if_pos hpoint, if_pos hpoint, List.tail_append_of_ne_nil hcs]
    exact dropWhile_extend hne extra
  next hpoint => rw [if_neg hpoint, if_neg hpoint]

theorem skipExponent_extend {cs : List Char} (hne : skipExponent cs ≠ []) (extra : List Char) :
    skipExponent (cs ++ extra) = skipExponent cs ++ extra := by
  have hcs := ne_nil_of_suffix (skipExponent_suffix cs) hne
  unfold skipExponent at hne ⊢
  rw [head?_extend hcs]
  split at hne
  next hletter =>
    have hsign := ne_nil_of_suffix (skipDigits_suffix _) hne
    have htail := ne_nil_of_suffix (skipChar_suffix _ _) hsign
    rw [if_pos hletter, if_pos hletter, List.tail_append_of_ne_nil hcs, skipChar_extend htail]
    exact dropWhile_extend hne extra
  next hletter => rw [if_neg hletter, if_neg hletter]

theorem skipNumber_extend {cs : List Char} (hne : skipNumber cs ≠ []) (extra : List Char) :
    skipNumber (cs ++ extra) = skipNumber cs ++ extra := by
  have hfraction := ne_nil_of_suffix (skipExponent_suffix _) hne
  have hdigits := ne_nil_of_suffix (skipFraction_suffix _) hfraction
  have hsign := ne_nil_of_suffix (skipDigits_suffix _) hdigits
  have hcs := ne_nil_of_suffix (skipChar_suffix _ _) hsign
  unfold skipNumber at hne ⊢
  rw [skipChar_extend hcs, skipDigits, dropWhile_extend hdigits, ← skipDigits,
    skipFraction_extend hfraction, skipExponent_extend hne]

theorem readNumber_extend {cs rest : List Char} {v : JVal}
    (hread : readNumber cs = some (v, rest)) (hne : rest ≠ []) (extra : List Char) :
    readNumber (cs ++ extra) = some (v, rest ++ extra) := by
  simp only [readNumber, Option.map_eq_some_iff, Prod.mk.injEq] at hread
  obtain ⟨n, hparse, rfl, rfl⟩ := hread
  have hskip := skipNumber_extend hne extra
  have htoken : numberToken (cs ++ extra) = numberToken cs := by
    rw [numberToken, numberToken, hskip, List.length_append, List.length_append,
      Nat.add_sub_add_right, List.take_append_of_le_length (Nat.sub_le _ _)]
  rw [readNumber, htoken, hparse, hskip]
  rfl

/-! ## Strings -/

theorem readQuad_extend {cs rest : List Char} {n : Nat} (hread : readQuad cs = some (n, rest))
    (extra : List Char) : readQuad (cs ++ extra) = some (n, rest ++ extra) := by
  unfold readQuad at hread ⊢
  split at hread
  · cases hread
  next hlen =>
    have hle : 4 ≤ cs.length := Nat.not_lt.mp hlen
    rw [if_neg (by rw [List.length_append]; omega), List.take_append_of_le_length hle,
      List.drop_append_of_le_length hle]
    simp only [Option.map_eq_some_iff, Prod.mk.injEq] at hread ⊢
    obtain ⟨m, hm, rfl, rfl⟩ := hread
    exact ⟨m, hm, rfl, rfl⟩

/-- The two characters that would begin a second escape do not come from what follows. -/
theorem take_two_extend {cs : List Char} (hne : cs ≠ []) (hslash : cs ≠ ['\\'])
    (extra : List Char) : (cs ++ extra).take 2 = ['\\', 'u'] ↔ cs.take 2 = ['\\', 'u'] := by
  match cs with
  | [] => exact absurd rfl hne
  | [c] =>
      have hc : c ≠ '\\' := by
        rintro rfl
        exact hslash rfl
      simp [hc]
  | c :: d :: cs => simp

theorem readUnicode_extend {cs rest : List Char} {c : Char}
    (hread : readUnicode cs = some (c, rest)) (hne : rest ≠ []) (hslash : rest ≠ ['\\'])
    (extra : List Char) : readUnicode (cs ++ extra) = some (c, rest ++ extra) := by
  simp only [readUnicode, Option.bind_eq_some_iff] at hread ⊢
  obtain ⟨⟨hi, mid⟩, hhi, hread⟩ := hread
  refine ⟨⟨hi, mid ++ extra⟩, readQuad_extend hhi extra, ?_⟩
  dsimp only at hread ⊢
  split at hread
  next hpair =>
    have hlen : 2 ≤ mid.length := by
      have := congrArg List.length hpair.2.2
      simp only [List.length_take, List.length_cons, List.length_nil] at this
      omega
    rw [if_pos ⟨hpair.1, hpair.2.1, by rw [List.take_append_of_le_length hlen]; exact hpair.2.2⟩,
      List.drop_append_of_le_length hlen]
    simp only [Option.map_eq_some_iff] at hread ⊢
    obtain ⟨⟨lo, last⟩, hlo, hread⟩ := hread
    obtain ⟨hchar, rfl⟩ := Prod.mk.inj hread
    exact ⟨⟨lo, last ++ extra⟩, readQuad_extend hlo extra, by rw [← hchar]⟩
  next hpair =>
    obtain ⟨rfl, rfl⟩ := Prod.mk.inj (Option.some.inj hread)
    rw [if_neg]
    rwa [take_two_extend hne hslash]

theorem readItem_extend {cs rest : List Char} {c : Char} (hread : readItem cs = some (c, rest))
    (hne : rest ≠ []) (hslash : rest ≠ ['\\']) (extra : List Char) :
    readItem (cs ++ extra) = some (c, rest ++ extra) := by
  cases cs with
  | nil => cases hread
  | cons d cs =>
      by_cases hd : d = '\\'
      · subst hd
        cases cs with
        | nil => cases hread
        | cons e cs =>
            simp only [List.cons_append, readItem] at hread ⊢
            split at hread
            next hu =>
              rw [if_pos hu]
              exact readUnicode_extend hread hne hslash extra
            next hu =>
              rw [if_neg hu]
              simp only [Option.map_eq_some_iff, Prod.mk.injEq] at hread ⊢
              obtain ⟨f, hf, rfl, rfl⟩ := hread
              exact ⟨f, hf, rfl, rfl⟩
      · rw [List.cons_append, readItem_raw hd] at *
        split at hread
        · cases hread
        next hcontrol =>
          obtain ⟨rfl, rfl⟩ := Prod.mk.inj (Option.some.inj hread)
          rw [if_neg hcontrol]

/-- A string ends at its closing quote. -/
theorem readBody_extend {cs rest s : List Char} (hread : readBody cs = some (s, rest))
    (extra : List Char) : readBody (cs ++ extra) = some (s, rest ++ extra) := by
  fun_induction readBody cs generalizing s rest with
  | case1 => cases hread
  | case2 tail =>
      obtain ⟨rfl, rfl⟩ := Prod.mk.inj (Option.some.inj hread)
      rw [List.cons_append, readBody_quote]
  | case3 => cases hread
  | case4 c tail hquote d mid hitem ih =>
      simp only [Option.map_eq_some_iff, Prod.mk.injEq] at hread
      obtain ⟨⟨ds, last⟩, hbody, rfl, rfl⟩ := hread
      have hne : mid ≠ [] := by
        rintro rfl
        simp at hbody
      have hslash : mid ≠ ['\\'] := by
        rintro rfl
        rw [readBody_item (by decide)] at hbody
        cases hbody
      have hc : c ≠ '"' := fun h => hquote h
      have hmore := readItem_extend hitem hne hslash extra
      rw [List.cons_append] at hmore ⊢
      rw [readBody_item hc, hmore, Option.bind_some, ih hbody]
      rfl

theorem readString_extend {cs rest : List Char} {s : String}
    (hread : readString cs = some (s, rest)) (extra : List Char) :
    readString (cs ++ extra) = some (s, rest ++ extra) := by
  unfold readString at hread
  split at hread
  · simp only [Option.map_eq_some_iff, Prod.mk.injEq] at hread
    obtain ⟨⟨cs, last⟩, hbody, rfl, rfl⟩ := hread
    simp [readString, readBody_extend hbody extra]
  · cases hread

/-! ## Values -/

section Containers

variable {α : Type} {element : Reader α} {close : Char}

theorem ne_nil_of_run {cs rest : List Char} {a : α} (hrun : element.run cs = some (a, rest)) :
    cs ≠ [] := by
  rintro rfl
  exact absurd (element.shrinks hrun) (Nat.not_lt_zero _)

theorem readItems_extend (helement : Extends element) {cs rest : List Char} {as : List α}
    (hread : readItems element close cs = some (as, rest)) (extra : List Char) :
    readItems element close (cs ++ extra) = some (as, rest ++ extra) := by
  fun_induction readItems element close cs generalizing as rest with
  | case1 => cases hread
  | case2 => cases hread
  | case3 cs a mid hitem tail hskip ih =>
      simp only [Option.map_eq_some_iff, Prod.mk.injEq] at hread
      obtain ⟨⟨bs, last⟩, hlast, rfl, rfl⟩ := hread
      have hblank : skipBlanks mid ≠ [] := by simp [hskip]
      have hmid := ne_nil_of_suffix (skipBlanks_suffix mid) hblank
      rw [readItems_eq, helement hitem hmid extra, Option.bind_some]
      simp only [skipBlanks_extend hblank, hskip, List.cons_append, if_true, ih hlast,
        Option.map_some]
  | case4 cs a mid hitem tail hskip hcomma =>
      obtain ⟨rfl, rfl⟩ := Prod.mk.inj (Option.some.inj hread)
      have hblank : skipBlanks mid ≠ [] := by simp [hskip]
      have hmid := ne_nil_of_suffix (skipBlanks_suffix mid) hblank
      rw [readItems_eq, helement hitem hmid extra, Option.bind_some]
      simp only [skipBlanks_extend hblank, hskip, List.cons_append, hcomma, if_false, if_true]
  | case5 => cases hread

theorem readList_extend (helement : Extends element) {cs rest : List Char} {as : List α}
    (hread : readList element close cs = some (as, rest)) (extra : List Char) :
    readList element close (cs ++ extra) = some (as, rest ++ extra) := by
  have hblank : skipBlanks cs ≠ [] := by
    intro hnil
    rw [readList, hnil, readItems_eq] at hread
    cases hrun : element.run [] with
    | none => simp [hrun] at hread
    | some x => exact ne_nil_of_run hrun rfl
  unfold readList at hread ⊢
  rw [skipBlanks_extend hblank, head?_extend hblank]
  split at hread
  next hclose =>
    obtain ⟨rfl, rfl⟩ := Prod.mk.inj (Option.some.inj hread)
    rw [if_pos hclose, List.tail_append_of_ne_nil hblank]
  next hclose =>
    rw [if_neg hclose]
    exact readItems_extend helement hread extra

end Containers

theorem pairReader_extends {value : Reader JVal} (hvalue : Extends value) :
    Extends (pairReader value) := by
  intro cs rest kv hread hne extra
  simp only [pairReader, readPair, Option.bind_eq_some_iff] at hread ⊢
  obtain ⟨⟨key, mid⟩, hkey, hread⟩ := hread
  have hblank : skipBlanks cs ≠ [] := by
    intro hnil
    rw [hnil] at hkey
    cases hkey
  refine ⟨⟨key, mid ++ extra⟩, ?_, ?_⟩
  · rw [skipBlanks_extend hblank]
    exact readString_extend hkey extra
  · dsimp only at hread ⊢
    split at hread
    next hcolon =>
      have hmid : skipBlanks mid ≠ [] := by
        intro hnil
        rw [hnil] at hcolon
        cases hcolon
      rw [skipBlanks_extend hmid, head?_extend hmid, if_pos hcolon,
        List.tail_append_of_ne_nil hmid]
      simp only [Option.map_eq_some_iff, Prod.mk.injEq] at hread ⊢
      obtain ⟨⟨v, last⟩, hrun, rfl, rfl⟩ := hread
      exact ⟨⟨v, last ++ extra⟩, hvalue hrun hne extra, rfl, rfl⟩
    · cases hread

theorem readWord_extend {word : String} {v w : JVal} {cs rest : List Char}
    (hread : readWord word v cs = some (w, rest)) (extra : List Char) :
    readWord word v (cs ++ extra) = some (w, rest ++ extra) := by
  unfold readWord at hread ⊢
  split at hread
  next hbegins =>
    obtain ⟨rfl, rfl⟩ := Prod.mk.inj (Option.some.inj hread)
    rw [if_pos (hbegins.trans (List.prefix_append _ _)),
      List.drop_append_of_le_length hbegins.length_le]
  · cases hread

/-- An object ends at its closing brace. -/
theorem readHere_object_extend {element : Reader JVal} (helement : Extends element)
    {cs rest : List Char} {v : JVal} (hread : readHere element ('{' :: cs) = some (v, rest))
    (extra : List Char) : readHere element ('{' :: cs ++ extra) = some (v, rest ++ extra) := by
  simp only [List.cons_append, readHere, if_true, Option.map_eq_some_iff, Prod.mk.injEq]
    at hread ⊢
  obtain ⟨⟨pairs, last⟩, hlist, rfl, rfl⟩ := hread
  exact ⟨⟨pairs, last ++ extra⟩, readList_extend (pairReader_extends helement) hlist extra,
    rfl, rfl⟩

theorem readHere_extend {element : Reader JVal} (helement : Extends element)
    {cs rest : List Char} {v : JVal} (hread : readHere element cs = some (v, rest))
    (hne : rest ≠ []) (extra : List Char) :
    readHere element (cs ++ extra) = some (v, rest ++ extra) := by
  -- more text changes no branch, since each looks at the first character only
  cases cs with
  | nil => cases hread
  | cons c cs =>
      by_cases hobject : c = '{'
      · subst hobject
        exact readHere_object_extend helement hread extra
      · simp only [List.cons_append, readHere, hobject, if_false] at hread ⊢
        split at hread
        next harray =>
          rw [if_pos harray]
          simp only [Option.map_eq_some_iff, Prod.mk.injEq] at hread ⊢
          obtain ⟨⟨items, last⟩, hlist, rfl, rfl⟩ := hread
          exact ⟨⟨items, last ++ extra⟩, readList_extend helement hlist extra, rfl, rfl⟩
        next harray =>
          rw [if_neg harray]
          split at hread
          next hstring =>
            rw [if_pos hstring]
            simp only [Option.map_eq_some_iff, Prod.mk.injEq] at hread ⊢
            obtain ⟨⟨s, last⟩, hbody, rfl, rfl⟩ := hread
            exact ⟨⟨s, last ++ extra⟩, readBody_extend hbody extra, rfl, rfl⟩
          next hstring =>
            rw [if_neg hstring]
            split at hread
            next ht => rw [if_pos ht]; exact readWord_extend hread extra
            next ht =>
              rw [if_neg ht]
              split at hread
              next hf => rw [if_pos hf]; exact readWord_extend hread extra
              next hf =>
                rw [if_neg hf]
                split at hread
                next hn => rw [if_pos hn]; exact readWord_extend hread extra
                next hn =>
                  rw [if_neg hn]
                  split at hread
                  next hnum => rw [if_pos hnum]; exact readNumber_extend hread hne extra
                  next => cases hread

theorem valueReader_extends (levels : Nat) : Extends (valueReader levels) := by
  induction levels with
  | zero =>
      intro cs rest v hread
      cases hread
  | succ levels ih =>
      intro cs rest v hread hne extra
      have hblank : skipBlanks cs ≠ [] := by
        intro hnil
        change readHere _ (skipBlanks cs) = _ at hread
        rw [hnil] at hread
        cases hread
      change readHere _ (skipBlanks (cs ++ extra)) = _
      rw [skipBlanks_extend hblank]
      exact readHere_extend ih hread hne extra

/-! ## Objects that are cut -/

/-- Before its end, an object is no JSON. -/
theorem readText_of_cut {cs extra : List Char} {v : JVal} (hextra : extra ≠ [])
    (hlast : ∀ c ∈ extra.getLast?, isBlank c = false)
    (hread : readText ('{' :: cs ++ extra) = some v) : readText ('{' :: cs) = none := by
  cases hcut : readText ('{' :: cs) with
  | none => rfl
  | some w =>
      exfalso
      simp only [readText, Option.bind_eq_some_iff] at hread hcut
      obtain ⟨⟨w', rest⟩, hrun, hrest⟩ := hcut
      obtain ⟨⟨v', rest'⟩, hrun', hrest'⟩ := hread
      have hopen : ∀ ds, (valueReader (Parser.depthLimit + 1)).run ('{' :: ds) =
          readHere (valueReader Parser.depthLimit) ('{' :: ds) := fun ds => by
        change readHere _ (skipBlanks ('{' :: ds)) = _
        rw [skipBlanks, List.dropWhile_cons, if_neg (by decide)]
        rfl
      rw [hopen] at hrun
      rw [List.cons_append, hopen, ← List.cons_append,
        readHere_object_extend (valueReader_extends _) hrun extra] at hrun'
      obtain ⟨-, rfl⟩ := Prod.mk.inj (Option.some.inj hrun')
      dsimp only at hrest'
      split at hrest'
      next hblank =>
        have hc := List.getLast?_eq_some_getLast hextra
        have hmem : extra.getLast hextra ∈ rest ++ extra :=
          List.mem_append_right _ (List.getLast_mem hextra)
        have hall := skipBlanks_eq_nil hblank _ hmem
        rw [hlast _ hc] at hall
        cases hall
      · cases hrest'

end PowerForensics.Json
