import Tulux.Lib.Access
import Tulux.Lib.ForwardSearch
import Tulux.Lib.Loop

/-! The searches of `yx_string.c`. A string is the list of the bytes that its length counts; every
read is recorded. -/
namespace Tulux.YxString
open Loop ForwardSearch

/-- The result of a search, and what it read. -/
abbrev Found := Bool × List Access

/-- `*(s + i)`. -/
def byteAt (s : List UInt8) (i : ℕ) : UInt8 := s.getD i 0

def readAt (s : List UInt8) (i : ℕ) : Access := ⟨s.length, i, 1⟩

theorem byteAt_eq {s : List UInt8} {i : ℕ} (h : i < s.length) : s[i]? = some (byteAt s i) := by
  rw [byteAt, List.getD_eq_getElem?_getD, List.getElem?_eq_getElem h, Option.getD_some]

/-- The capital letter of a small one. -/
def yxCharIsupper (ch : UInt8) : UInt8 :=
  if 0x61 ≤ ch ∧ ch ≤ 0x7a then 0x41 + (ch - 0x61) else ch

/-! ### `yx_str_search` -/

structure SearchState where
  bptr : ℕ
  blen : ℕ
  tempptr : ℕ
  templen : ℕ
  reads : List Access

def searchPass (b s : List UInt8) (st : SearchState) : SearchState ⊕ Found :=
  if st.blen = 0 then .inr (false, st.reads)
  else
    let reads := st.reads ++ [readAt b st.bptr, readAt s st.tempptr]
    if byteAt b st.bptr = byteAt s st.tempptr then
      if st.templen - 1 = 0 then .inr (true, reads)
      else .inl ⟨st.bptr + 1, st.blen - 1, st.tempptr + 1, st.templen - 1, reads⟩
    else if st.tempptr = 0 then .inl ⟨st.bptr + 1, st.blen - 1, 0, s.length, reads⟩
    else .inl ⟨st.bptr, st.blen, 0, s.length, reads⟩

def yxStrSearch (b s : List UInt8) (fuel : ℕ) : Option Found :=
  if s.length = 0 ∨ b.length < s.length then some (false, [])
  else run (searchPass b s) ⟨0, b.length, 0, s.length, []⟩ fuel

/-- The search ends, reads inside both strings, and tells whether `s` is a part of `b`. -/
def SearchExact (b s : List UInt8) : Prop :=
  ∃ found reads, Yields (yxStrSearch b s) (found, reads) ∧ Access.AllInside reads ∧
    (found = true ↔ s ≠ [] ∧ s <:+: b)

section Search
variable {b s : List UInt8} {cut : ℕ} {st st' : SearchState} {r : Found}

/-- The search has started over at `cut`, and `tempptr` bytes have matched since. -/
structure Matching (b s : List UInt8) (cut : ℕ) (st : SearchState) : Prop where
  bptr : st.bptr = cut + st.tempptr
  blen : st.bptr + st.blen = b.length
  templen : st.tempptr + st.templen = s.length
  unfinished : 0 < st.templen
  matched : (b.drop cut).take st.tempptr = s.take st.tempptr
  found : FoundAtCut s b ↔ FoundAtCut s (b.drop cut)
  reads : Access.AllInside st.reads

namespace Matching

theorem next_b (h : Matching b s cut st) (hlen : st.blen ≠ 0) :
    (b.drop cut)[st.tempptr]? = some (byteAt b st.bptr) := by
  have := h.blen
  rw [List.getElem?_drop, ← h.bptr, byteAt_eq (by omega)]

theorem next_s (h : Matching b s cut st) : s[st.tempptr]? = some (byteAt s st.tempptr) := by
  have := h.templen
  have := h.unfinished
  rw [byteAt_eq (by omega)]

theorem reads_inside (h : Matching b s cut st) (hlen : st.blen ≠ 0) :
    Access.AllInside (st.reads ++ [readAt b st.bptr, readAt s st.tempptr]) := by
  have := h.blen
  have := h.templen
  have := h.unfinished
  simp only [Access.allInside_append, Access.allInside_cons, Access.allInside_nil, readAt,
    Access.inside_mk]
  exact ⟨h.reads, by omega, by omega, trivial⟩

theorem matched_next (h : Matching b s cut st) (hlen : st.blen ≠ 0)
    (heq : byteAt b st.bptr = byteAt s st.tempptr) :
    (b.drop cut).take (st.tempptr + 1) = s.take (st.tempptr + 1) := by
  rw [List.take_add_one, List.take_add_one, h.matched, h.next_b hlen, h.next_s, heq]

/-- The pattern does not go on: what has matched is the longest common prefix. -/
theorem prefixLen (h : Matching b s cut st) (hlen : st.blen ≠ 0)
    (hne : byteAt b st.bptr ≠ byteAt s st.tempptr) :
    ¬ s <+: b.drop cut ∧ ForwardSearch.prefixLen s (b.drop cut) = st.tempptr := by
  have htempl := h.templen
  have hopen := h.unfinished
  have hdiff : (b.drop cut)[st.tempptr]? ≠ s[st.tempptr]? := by
    rw [h.next_b hlen, h.next_s]
    simpa using hne
  refine ⟨?_, prefixLen_eq (by omega) h.matched hdiff⟩
  rintro ⟨post, hpost⟩
  apply hdiff
  rw [← hpost, List.getElem?_append_left (by omega)]

/-- The search starts over behind what has matched, and behind one byte at least. -/
theorem restart (h : Matching b s cut st) (hlen : st.blen ≠ 0)
    (hne : byteAt b st.bptr ≠ byteAt s st.tempptr) {reads : List Access}
    (hreads : Access.AllInside reads) {bptr blen : ℕ} (hb : bptr = cut + max 1 st.tempptr)
    (hblen : bptr + blen = b.length) :
    Matching b s (cut + max 1 st.tempptr) ⟨bptr, blen, 0, s.length, reads⟩ := by
  have htempl := h.templen
  have hopen := h.unfinished
  obtain ⟨hno, hpre⟩ := h.prefixLen hlen hne
  have hnil : b.drop cut ≠ [] := by
    intro hnil
    have := h.next_b hlen
    simp [hnil] at this
  refine ⟨hb, hblen, Nat.zero_add _, by dsimp only; omega, rfl, ?_, hreads⟩
  rw [h.found, foundAtCut_iff_next hnil hno, hpre, List.drop_drop]

end Matching

theorem searchPass_go (h : Matching b s cut st) (hp : searchPass b s st = .inl st') :
    (∃ cut, Matching b s cut st') ∧ 2 * st'.blen + st'.tempptr < 2 * st.blen + st.tempptr := by
  have hbptr := h.bptr
  have hblen := h.blen
  have htempl := h.templen
  unfold searchPass at hp
  dsimp only at hp
  split_ifs at hp with hlen heq hlast hfirst
  · obtain rfl := Sum.inl.inj hp
    refine ⟨⟨cut, ?_, ?_, ?_, ?_, h.matched_next hlen heq, h.found, h.reads_inside hlen⟩, ?_⟩ <;>
      dsimp only <;> omega
  · obtain rfl := Sum.inl.inj hp
    have hmax : max 1 st.tempptr = 1 := by omega
    refine ⟨⟨_, h.restart hlen heq (h.reads_inside hlen) ?_ ?_⟩, ?_⟩
    · rw [hmax, hbptr]
      omega
    · omega
    · dsimp only
      omega
  · obtain rfl := Sum.inl.inj hp
    have hmax : max 1 st.tempptr = st.tempptr := by omega
    refine ⟨⟨_, h.restart hlen heq (h.reads_inside hlen) ?_ ?_⟩, ?_⟩
    · rw [hmax, hbptr]
    · omega
    · dsimp only
      omega

theorem searchPass_done (h : Matching b s cut st) (hp : searchPass b s st = .inr r) :
    (r.1 = true ↔ FoundAtCut s b) ∧ Access.AllInside r.2 := by
  have hbptr := h.bptr
  have hblen := h.blen
  have htempl := h.templen
  have hopen := h.unfinished
  unfold searchPass at hp
  dsimp only at hp
  split_ifs at hp with hlen heq hlast
  · obtain rfl := Sum.inr.inj hp
    have hshort : ¬ FoundAtCut s (b.drop cut) := by
      apply not_foundAtCut_of_short
      rw [List.length_drop]
      omega
    exact ⟨by simpa [h.found] using hshort, h.reads⟩
  · obtain rfl := Sum.inr.inj hp
    have hall := h.matched_next hlen heq
    rw [List.take_of_length_le (l := s) (by omega)] at hall
    refine ⟨iff_of_true rfl ?_, h.reads_inside hlen⟩
    rw [h.found]
    exact foundAtCut_of_prefix (hall ▸ List.take_prefix _ _)

/-- `yx_str_search` finds the pattern where it starts over. -/
theorem yxStrSearch_yields (b s : List UInt8) :
    ∃ r, Yields (yxStrSearch b s) r ∧ Access.AllInside r.2 ∧
      (r.1 = true ↔ s ≠ [] ∧ FoundAtCut s b) := by
  by_cases hc : s.length = 0 ∨ b.length < s.length
  · have hrun : yxStrSearch b s = fun _ => some (false, []) := by
      funext fuel
      rw [yxStrSearch, if_pos hc]
    refine ⟨(false, []), hrun ▸ yields_some _, Access.allInside_nil, ?_⟩
    rcases hc with hnil | hlong
    · simp [List.length_eq_zero_iff.mp hnil]
    · simp [not_foundAtCut_of_short hlong]
  · have hrun : yxStrSearch b s = run (searchPass b s) ⟨0, b.length, 0, s.length, []⟩ := by
      funext fuel
      rw [yxStrSearch, if_neg hc]
    have hne : s ≠ [] := by
      rintro rfl
      simp at hc
    have hstart : Matching b s 0 ⟨0, b.length, 0, s.length, []⟩ := by
      refine ⟨rfl, Nat.zero_add _, Nat.zero_add _, ?_, rfl, by rw [List.drop_zero],
        Access.allInside_nil⟩
      exact List.length_pos_iff.mpr hne
    obtain ⟨r, hr, hfound, hreads⟩ := yields_of_invariant (searchPass b s)
      (fun st => ∃ cut, Matching b s cut st) (fun st => 2 * st.blen + st.tempptr)
      (fun r => (r.1 = true ↔ FoundAtCut s b) ∧ Access.AllInside r.2)
      (fun st st' ⟨cut, h⟩ hp => searchPass_go h hp)
      (fun st r ⟨cut, h⟩ hp => searchPass_done h hp) ⟨0, hstart⟩
    exact ⟨r, hrun ▸ hr, hreads, by simp [hfound, hne]⟩

theorem searchExact_iff (b s : List UInt8) :
    SearchExact b s ↔ (s <:+: b → FoundAtCut s b) := by
  obtain ⟨r, hr, hreads, hfound⟩ := yxStrSearch_yields b s
  constructor
  · rintro ⟨found, reads, hr', -, hexact⟩ hocc
    obtain rfl := hr'.unique hr
    by_cases hnil : s = []
    · subst hnil
      exact foundAtCut_of_prefix List.nil_prefix
    · exact (hfound.mp (hexact.mpr ⟨hnil, hocc⟩)).2
  · intro h
    refine ⟨r.1, r.2, hr, hreads, hfound.trans (and_congr_right fun _ => ?_)⟩
    exact ⟨FoundAtCut.occurs, h⟩

/-- The search is exact on a buffer that has the pattern at a cut if anywhere. It is exact on every
buffer when what follows a prefix of the pattern follows its borders, too. -/
theorem search_exact_iff (s : List UInt8) :
    (∀ b, SearchExact b s ↔ (s <:+: b → FoundAtCut s b)) ∧
      ((∀ b, b.length ≤ 65535 → SearchExact b s) ↔ GoesOnAlike s 65535) := by
  refine ⟨fun b => searchExact_iff b s, ?_⟩
  rw [← found_iff_goesOnAlike]
  exact forall₂_congr fun b _ => searchExact_iff b s

/-- The search for `aab` misses it in `aaab`. -/
theorem search_misses : ¬ SearchExact [0x61, 0x61, 0x61, 0x62] [0x61, 0x61, 0x62] := by
  rw [searchExact_iff]
  intro h
  have hno : ¬ FoundAtCut ([0x61, 0x61, 0x62] : List UInt8) [0x61, 0x61, 0x61, 0x62] :=
    not_found_of_border (k := 1) (m := 2) (by decide) (by decide) (by decide) (by decide)
      (by decide)
  exact hno (h ⟨[0x61], [], by decide⟩)

end Search

/-! ### `yx_str_searchkeyword_case` -/

/-- A byte as it is compared. -/
def foldCase (matchcase ch : UInt8) : UInt8 := if matchcase = 0 then yxCharIsupper ch else ch

structure KeywordState where
  s1 : ℕ
  len1 : ℕ
  xptr : ℕ
  cptr : ℕ
  cmplen1 : ℕ
  cmplen2 : ℕ
  reads : List Access

def keywordPass (matchcase : UInt8) (s1 s2 : List UInt8) (st : KeywordState) :
    KeywordState ⊕ Found :=
  if st.len1 = 0 then .inr (false, st.reads)
  else
    let reads := st.reads ++ [readAt s1 st.xptr, readAt s2 st.cptr]
    let ch1 := foldCase matchcase (byteAt s1 st.xptr)
    let ch2 := foldCase matchcase (byteAt s2 st.cptr)
    if ch1 = ch2 then
      if st.cmplen2 - 1 = 0 then .inr (true, reads)
      else if st.cmplen1 - 1 = 0 then .inr (false, reads)
      else .inl { st with
        xptr := st.xptr + 1
        cptr := st.cptr + 1
        cmplen1 := st.cmplen1 - 1
        cmplen2 := st.cmplen2 - 1
        reads := reads }
    else .inl ⟨st.s1 + 1, st.len1 - 1, st.s1 + 1, 0, st.len1 - 1, s2.length, reads⟩

def yxStrSearchkeywordCase (matchcase : UInt8) (s1 s2 : List UInt8) (fuel : ℕ) : Option Found :=
  if s2.length = 0 ∨ s1.length = 0 ∨ s1.length < s2.length then some (false, [])
  else run (keywordPass matchcase s1 s2)
    ⟨0, s1.length, 0, 0, s1.length, s2.length, []⟩ fuel

section Keyword
variable {matchcase : UInt8} {s1 s2 : List UInt8} {st st' : KeywordState} {r : Found}

/-- `s2` has been tried before `s1`, and `cptr` bytes of it match there. -/
structure Trying (matchcase : UInt8) (s1 s2 : List UInt8) (st : KeywordState) : Prop where
  len1 : st.s1 + st.len1 = s1.length
  xptr : st.xptr = st.s1 + st.cptr
  cmplen1 : st.cptr + st.cmplen1 = st.len1
  cmplen2 : st.cptr + st.cmplen2 = s2.length
  room : st.len1 ≠ 0 → 0 < st.cmplen1
  unfinished : 0 < st.cmplen2
  matched : ((s1.map (foldCase matchcase)).drop st.s1).take st.cptr =
    (s2.map (foldCase matchcase)).take st.cptr
  ahead : s2.map (foldCase matchcase) <:+: s1.map (foldCase matchcase) ↔
    s2.map (foldCase matchcase) <:+: (s1.map (foldCase matchcase)).drop st.s1
  reads : Access.AllInside st.reads

namespace Trying

theorem next_s1 (h : Trying matchcase s1 s2 st) (hlen : st.len1 ≠ 0) :
    ((s1.map (foldCase matchcase)).drop st.s1)[st.cptr]? =
      some (foldCase matchcase (byteAt s1 st.xptr)) := by
  have hl := h.len1
  have hc := h.cmplen1
  have hroom := h.room hlen
  rw [List.getElem?_drop, ← h.xptr, List.getElem?_map, byteAt_eq (by rw [h.xptr]; omega),
    Option.map_some]

theorem next_s2 (h : Trying matchcase s1 s2 st) :
    (s2.map (foldCase matchcase))[st.cptr]? =
      some (foldCase matchcase (byteAt s2 st.cptr)) := by
  have hc := h.cmplen2
  have hopen := h.unfinished
  rw [List.getElem?_map, byteAt_eq (by omega), Option.map_some]

theorem reads_inside (h : Trying matchcase s1 s2 st) (hlen : st.len1 ≠ 0) :
    Access.AllInside (st.reads ++ [readAt s1 st.xptr, readAt s2 st.cptr]) := by
  have hl := h.len1
  have hx := h.xptr
  have hc := h.cmplen1
  have hc2 := h.cmplen2
  have hroom := h.room hlen
  have hopen := h.unfinished
  simp only [Access.allInside_append, Access.allInside_cons, Access.allInside_nil, readAt,
    Access.inside_mk]
  exact ⟨h.reads, by omega, by omega, trivial⟩

theorem matched_next (h : Trying matchcase s1 s2 st) (hlen : st.len1 ≠ 0)
    (heq : foldCase matchcase (byteAt s1 st.xptr) = foldCase matchcase (byteAt s2 st.cptr)) :
    ((s1.map (foldCase matchcase)).drop st.s1).take (st.cptr + 1) =
      (s2.map (foldCase matchcase)).take (st.cptr + 1) := by
  rw [List.take_add_one, List.take_add_one, h.matched, h.next_s1 hlen, h.next_s2, heq]

/-- Where a byte differs, `s2` does not start at `s1`, and is looked for behind it. -/
theorem ahead_next (h : Trying matchcase s1 s2 st) (hlen : st.len1 ≠ 0)
    (hne : foldCase matchcase (byteAt s1 st.xptr) ≠ foldCase matchcase (byteAt s2 st.cptr)) :
    s2.map (foldCase matchcase) <:+: s1.map (foldCase matchcase) ↔
      s2.map (foldCase matchcase) <:+: (s1.map (foldCase matchcase)).drop (st.s1 + 1) := by
  have hc := h.cmplen2
  have hopen := h.unfinished
  have hno : ¬ s2.map (foldCase matchcase) <+: (s1.map (foldCase matchcase)).drop st.s1 := by
    rintro ⟨post, hpost⟩
    apply hne
    have hget := h.next_s1 hlen
    rw [← hpost, List.getElem?_append_left (by rw [List.length_map]; omega), h.next_s2] at hget
    exact (Option.some.inj hget).symm
  have hl := h.len1
  have hlt : st.s1 < (s1.map (foldCase matchcase)).length := by
    rw [List.length_map]
    omega
  rw [h.ahead, List.drop_eq_getElem_cons hlt, List.infix_cons_iff, or_iff_right]
  rwa [← List.drop_eq_getElem_cons hlt]

end Trying

theorem keywordPass_go (h : Trying matchcase s1 s2 st)
    (hp : keywordPass matchcase s1 s2 st = .inl st') :
    Trying matchcase s1 s2 st' ∧
      st'.len1 * (s1.length + 1) + st'.cmplen1 < st.len1 * (s1.length + 1) + st.cmplen1 := by
  have hl := h.len1
  have hx := h.xptr
  have hc1 := h.cmplen1
  have hc2 := h.cmplen2
  unfold keywordPass at hp
  dsimp only at hp
  split_ifs at hp with hlen heq hlast hend
  · obtain rfl := Sum.inl.inj hp
    have hroom := h.room hlen
    refine ⟨⟨hl, ?_, ?_, ?_, ?_, ?_, h.matched_next hlen heq, h.ahead, h.reads_inside hlen⟩, ?_⟩ <;>
      dsimp only <;> omega
  · obtain rfl := Sum.inl.inj hp
    have hroom := h.room hlen
    refine ⟨⟨?_, rfl, ?_, ?_, ?_, ?_, rfl, h.ahead_next hlen heq, h.reads_inside hlen⟩, ?_⟩
    · dsimp only
      omega
    · exact Nat.zero_add _
    · exact Nat.zero_add _
    · exact fun hne => Nat.pos_of_ne_zero hne
    · dsimp only
      have hopen := h.unfinished
      omega
    · obtain ⟨n, hn⟩ : ∃ n, st.len1 = n + 1 := ⟨st.len1 - 1, by omega⟩
      dsimp only
      rw [hn, Nat.add_sub_cancel, Nat.add_mul]
      omega

theorem keywordPass_done (h : Trying matchcase s1 s2 st)
    (hp : keywordPass matchcase s1 s2 st = .inr r) :
    (r.1 = true ↔ s2.map (foldCase matchcase) <:+: s1.map (foldCase matchcase)) ∧
      Access.AllInside r.2 := by
  have hl := h.len1
  have hc1 := h.cmplen1
  have hc2 := h.cmplen2
  have hopen := h.unfinished
  -- `s2` is longer than what is left
  have short (hlt : st.len1 < s2.length) :
      ¬ s2.map (foldCase matchcase) <:+: (s1.map (foldCase matchcase)).drop st.s1 := by
    intro hocc
    have := hocc.length_le
    simp only [List.length_map, List.length_drop] at this
    omega
  unfold keywordPass at hp
  dsimp only at hp
  split_ifs at hp with hlen heq hlast hend
  · obtain rfl := Sum.inr.inj hp
    exact ⟨by simpa [h.ahead] using short (by omega), h.reads⟩
  · obtain rfl := Sum.inr.inj hp
    have hall := h.matched_next hlen heq
    rw [List.take_of_length_le (l := s2.map _) (by rw [List.length_map]; omega)] at hall
    refine ⟨iff_of_true rfl ?_, h.reads_inside hlen⟩
    rw [h.ahead, ← hall]
    exact (List.take_prefix _ _).isInfix
  · obtain rfl := Sum.inr.inj hp
    exact ⟨by simpa [h.ahead] using short (by omega), h.reads_inside hlen⟩

/-- `yx_str_searchkeyword_case` ends, reads inside both strings, and tells whether `s2` is a part
of `s1`, as the bytes are compared. -/
theorem searchkeyword_exact (matchcase : UInt8) (s1 s2 : List UInt8) :
    ∃ found reads, Yields (yxStrSearchkeywordCase matchcase s1 s2) (found, reads) ∧
      Access.AllInside reads ∧
      (found = true ↔ s1 ≠ [] ∧ s2 ≠ [] ∧
        s2.map (foldCase matchcase) <:+: s1.map (foldCase matchcase)) := by
  by_cases hc : s2.length = 0 ∨ s1.length = 0 ∨ s1.length < s2.length
  · have hrun : yxStrSearchkeywordCase matchcase s1 s2 = fun _ => some (false, []) := by
      funext fuel
      rw [yxStrSearchkeywordCase, if_pos hc]
    refine ⟨false, [], hrun ▸ yields_some _, Access.allInside_nil, ?_⟩
    simp only [Bool.false_eq_true, false_iff]
    rintro ⟨hs1, hs2, hocc⟩
    have hlen := hocc.length_le
    simp only [List.length_map] at hlen
    have hpos1 := List.length_pos_iff.mpr hs1
    have hpos2 := List.length_pos_iff.mpr hs2
    omega
  · have hrun : yxStrSearchkeywordCase matchcase s1 s2 = run (keywordPass matchcase s1 s2)
        ⟨0, s1.length, 0, 0, s1.length, s2.length, []⟩ := by
      funext fuel
      rw [yxStrSearchkeywordCase, if_neg hc]
    have hstart : Trying matchcase s1 s2 ⟨0, s1.length, 0, 0, s1.length, s2.length, []⟩ := by
      refine ⟨Nat.zero_add _, rfl, Nat.zero_add _, Nat.zero_add _, ?_, ?_, rfl,
        by rw [List.drop_zero], Access.allInside_nil⟩ <;> dsimp only <;> omega
    obtain ⟨⟨found, reads⟩, hr, hfound, hreads⟩ :=
      yields_of_invariant (keywordPass matchcase s1 s2) (Trying matchcase s1 s2)
        (fun st => st.len1 * (s1.length + 1) + st.cmplen1)
        (fun r => (r.1 = true ↔ s2.map (foldCase matchcase) <:+: s1.map (foldCase matchcase)) ∧
          Access.AllInside r.2)
        (fun st st' h hp => keywordPass_go h hp) (fun st r h hp => keywordPass_done h hp) hstart
    have hs1 : s1 ≠ [] := by
      rintro rfl
      simp at hc
    have hs2 : s2 ≠ [] := by
      rintro rfl
      simp at hc
    exact ⟨found, reads, hrun ▸ hr, hreads, by simp [hfound, hs1, hs2]⟩

end Keyword

end Tulux.YxString
