import Hermes.HeaderText

/-!
# Trimming in the header buffer

The backward loop of `__hms_str_strip` has no bound of its own. `ClearsBack` says where it stops
and what it overwrites, and `Strips` what a whole call does on a field : the loop stops inside
the buffer, it overwrites the blank end of the field, and of what stands in front of the field
only newlines that `strtok_r` has skipped.

`HeaderStripCall` are the calls made while `__hms_parse_header` runs on a buffer. In each of them
a NUL and newlines stand in front of the field (`StripCall.split`), so that all of them are such
(`strips_inside`).
-/

open CLib

namespace Hermes

/-! ## The backward loop -/

theorem lt_length_of_load {b : Buffer} {i : ℕ} {c : UInt8} (h : load b i = .ok c) :
    i < b.length := by
  by_contra hle
  rw [load, List.getElem?_eq_none (not_lt.1 hle)] at h
  cases h

theorem load_cells (pre rest : Buffer) {s : List UInt8} {j : ℕ} (hj : j < s.length) :
    load (pre ++ (cells s ++ rest)) (pre.length + j) = .ok s[j] := by
  have hcell : (pre ++ (cells s ++ rest))[pre.length + j]? = some (some s[j]) := by
    rw [List.getElem?_append_right (by omega), Nat.add_sub_cancel_left,
      List.getElem?_append_left (by simpa using hj), cells, List.getElem?_map,
      List.getElem?_eq_getElem hj, Option.map_some]
  rw [load, hcell]

/-- The backward loop from below `n` stops at `stop`, where it finds a byte that is no white
space, and has overwritten what is between. -/
structure ClearsBack (b b' : Buffer) (n stop : ℕ) : Prop where
  lt : stop < n
  stops : ∃ c, load b stop = .ok c ∧ isspace c = false
  space : ∀ i, stop < i → i < n → ∃ c, load b i = .ok c ∧ isspace c = true
  cleared : ∀ i, stop < i → i < n → load b' i = .ok nul
  kept : ∀ i, i ≤ stop ∨ n ≤ i → b'[i]? = b[i]?

theorem clearsBack_of_eq_ok : ∀ {n : ℕ} {b b' : Buffer}, clearBack b n = .ok b' →
    ∃ stop, ClearsBack b b' n stop
  | 0, b, b', h => by
    rw [clearBack] at h
    cases h
  | n + 1, b, b', h => by
    rw [clearBack] at h
    obtain ⟨c, hc, h⟩ := bind_eq_ok.1 h
    by_cases hspace : isspace c = true
    · rw [if_pos hspace] at h
      obtain ⟨b₁, hstore, h⟩ := bind_eq_ok.1 h
      obtain rfl : b.set n (some nul) = b₁ := by
        rw [store, if_pos (lt_length_of_load hc)] at hstore
        exact Except.ok.inj hstore
      obtain ⟨stop, hback⟩ := clearsBack_of_eq_ok h
      have hset : ∀ i, i ≠ n → (b.set n (some nul))[i]? = b[i]? := fun i hi =>
        List.getElem?_set_ne (Ne.symm hi)
      have hload : ∀ i, i < n → load (b.set n (some nul)) i = load b i := fun i hi => by
        rw [load, load, hset i hi.ne]
      have hlast : b'[n]? = some (some nul) := by
        rw [hback.kept n (Or.inr le_rfl), List.getElem?_set_self (lt_length_of_load hc)]
      refine ⟨stop, hback.lt.trans n.lt_succ_self, ?_, fun i hi hn => ?_, fun i hi hn => ?_,
        fun i hi => ?_⟩
      · rw [← hload stop hback.lt]
        exact hback.stops
      · rcases Nat.lt_succ_iff_lt_or_eq.1 hn with hn | rfl
        · rw [← hload i hn]
          exact hback.space i hi hn
        · exact ⟨c, hc, hspace⟩
      · rcases Nat.lt_succ_iff_lt_or_eq.1 hn with hn | rfl
        · exact hback.cleared i hi hn
        · rw [load, hlast]
      · rw [hback.kept i (by omega), hset i (by have := hback.lt; omega)]
    · rw [if_neg hspace] at h
      cases h
      exact ⟨n, n.lt_succ_self, ⟨c, hc, by simpa using hspace⟩, fun i _ _ => by omega,
        fun i _ _ => by omega, fun i _ => rfl⟩

section ClearsBack

variable {b b' : Buffer} {n stop : ℕ}

/-- The loop does not pass a byte that is no white space. -/
theorem ClearsBack.le_stop (h : ClearsBack b b' n stop) {k : ℕ} {c : UInt8}
    (hc : load b k = .ok c) (hspace : isspace c = false) (hk : k < n) : k ≤ stop := by
  by_contra hlt
  obtain ⟨d, hd, hspace'⟩ := h.space k (not_le.1 hlt) hk
  rw [hc] at hd
  cases hd
  rw [hspace] at hspace'
  cases hspace'

theorem ClearsBack.inside (h : ClearsBack b b' n stop) : stop < b.length := by
  obtain ⟨c, hc, -⟩ := h.stops
  exact lt_length_of_load hc

/-- What it overwrites of a text that ends at `n` is the blank end of the text. -/
theorem ClearsBack.blank {pre rest : Buffer} {s : List UInt8}
    (h : ClearsBack (pre ++ (cells s ++ rest)) b' (pre.length + s.length) stop) {i : ℕ}
    (hi : stop < i) (hpre : pre.length ≤ i) : ∀ c ∈ s.drop (i - pre.length), isspace c = true := by
  intro c hc
  obtain ⟨j, hj, rfl⟩ := List.mem_iff_getElem.1 hc
  rw [List.length_drop] at hj
  obtain ⟨d, hd, hspace⟩ := h.space (pre.length + (i - pre.length + j)) (by omega) (by omega)
  rw [load_cells pre rest (by omega)] at hd
  cases hd
  rw [List.getElem_drop]
  exact hspace

end ClearsBack

/-! ## A call of `__hms_str_strip` -/

/-- What `__hms_str_strip` does at `str`, on a field of the line at `line`. -/
structure Strips (b : Buffer) (line str : ℕ) (field : CString) (b' : Buffer) (str' stop : ℕ) :
    Prop where
  returns : hmsStrStrip b str = .ok (b', str')
  back : ClearsBack b b' (str + field.length) stop
  inside : stop < b.length
  /-- In the field, what is overwritten is its blank end. -/
  blank : ∀ i, stop < i → str ≤ i → ∀ c ∈ field.bytes.drop (i - str), isspace c = true
  /-- In front of it, newlines in front of the line. -/
  seps : ∀ i, stop < i → i < str → i < line ∧ ∀ j, i ≤ j → j < line → load b j = .ok newline
  result : stringAt b' str' = .ok (CString.ofBytes (trim isspace field.bytes))

/-- The byte at `j`, between a NUL and a field. -/
theorem load_seps (g rest : Buffer) {sp : List UInt8} (hsp : ∀ c ∈ sp, lineSep c = true) {j : ℕ}
    (hj : g.length < j) (hlt : j < g.length + 1 + sp.length) :
    load (g ++ some nul :: (cells sp ++ rest)) j = .ok newline := by
  have hsep := load_cells (g ++ [some nul]) rest (show j - (g.length + 1) < sp.length by omega)
  have hindex : (g ++ [some nul]).length + (j - (g.length + 1)) = j := by
    simp
    omega
  have hnew : sp[j - (g.length + 1)] = newline := by
    simpa [lineSep] using hsp _ (List.getElem_mem (by omega))
  rw [hindex, hnew, List.append_assoc, List.singleton_append] at hsep
  exact hsep

/-- A field behind a NUL and newlines. -/
theorem strips_at (g rest : Buffer) {sp : List UInt8} (field : CString) {line : ℕ}
    (hsp : ∀ c ∈ sp, lineSep c = true) (hline : sp = [] ∨ line = g.length + 1 + sp.length) :
    ∃ b' str' stop,
      Strips (g ++ some nul :: (cells sp ++ (cells field.bytes ++ some nul :: rest))) line
        (g.length + 1 + sp.length) field b' str' stop := by
  obtain ⟨p, q, -, hrun⟩ := hmsStrStrip_at g rest (fun c hc => isspace_of_lineSep (hsp c hc))
    field.noNul
  have hpre : g.length + 1 + sp.length = (g ++ some nul :: cells sp).length := by
    simp
    omega
  have hsplit : g ++ some nul :: (cells sp ++ (cells field.bytes ++ some nul :: rest)) =
      (g ++ some nul :: cells sp) ++ (cells field.bytes ++ some nul :: rest) := by
    simp
  have heq := hmsStrStrip_eq (g ++ some nul :: cells sp) rest field.noNul hpre
  rw [← hsplit, hrun] at heq
  obtain ⟨b', hclear, hb'⟩ := bind_eq_ok.1 heq.symm
  obtain rfl := (Prod.mk.inj (Except.ok.inj hb')).1
  obtain ⟨stop, hback⟩ := clearsBack_of_eq_ok hclear
  have hstop : g.length ≤ stop := hback.le_stop (load_at g nul _ rfl) isspace_nul (by omega)
  refine ⟨_, _, stop, hrun, hback, hback.inside, fun i hi hstr => ?_, fun i hi hstr => ?_, ?_⟩
  · rw [hsplit, hpre] at hback
    rw [hpre] at hstr ⊢
    exact hback.blank hi hstr
  · have hline' : line = g.length + 1 + sp.length := by
      refine hline.resolve_left fun h => ?_
      rw [h, List.length_nil] at hstr
      omega
    exact ⟨by omega, fun j hij hj => load_seps g _ hsp (by omega) (by omega)⟩
  · obtain ⟨r, hr⟩ := blanked_append_nul q rest
    have hread := stringAt_at (g ++ some nul :: cells p) (s := trim isspace field.bytes) r
      (fun h => field.noNul (mem_of_mem_trim h)) (i := g.length + 1 + p.length) (by simp; omega)
    rw [← hread, ← hr]
    simp

/-! ## The calls of the parser -/

/-- The calls that `__hms_parse_named_header` makes on the line at `line` : the buffer and the
pointer of each. -/
inductive StripCall (buffer : Buffer) (line : ℕ) : Buffer → ℕ → Prop
  | key {b : Buffer} {val : ℕ} (hchr : strchr buffer line colon = .ok (some val))
      (hstore : store buffer val nul = .ok b) : StripCall buffer line b line
  | val {b b' : Buffer} {val key : ℕ} (hchr : strchr buffer line colon = .ok (some val))
      (hstore : store buffer val nul = .ok b) (hkey : hmsStrStrip b line = .ok (b', key)) :
      StripCall buffer line b' (val + 1)

/-- The calls made while `__hms_parse_header` runs on a buffer, with the line of each. -/
def HeaderStripCall (msg : HmsMsg) (bodyLen : ℤ) (buffer : Buffer) (line : ℕ) (b : Buffer)
    (str : ℕ) : Prop :=
  ∃ buffer' st, StrtokCall lineSep headerBody buffer 0 ⟨msg, 0, bodyLen, false⟩ buffer' line st ∧
    st.count ≠ 0 ∧ StripCall buffer' line b str

/-- Behind a guard the call on the key changes nothing behind the key. -/
theorem hmsStrStrip_guarded {pre : Buffer} (hpre : Guarded pre) (rest : Buffer) {k : List UInt8}
    (hk : nul ∉ k) : ∃ G key, G.length = pre.length + k.length ∧
      hmsStrStrip (pre ++ (cells k ++ some nul :: rest)) pre.length =
        .ok (G ++ some nul :: rest, key) := by
  obtain ⟨g, sp, rfl, hsp⟩ := hpre
  obtain ⟨p, q, hlen, hrun⟩ := hmsStrStrip_at g rest (fun c hc => isspace_of_lineSep (hsp c hc)) hk
  have hi : (g ++ some nul :: cells sp).length = g.length + 1 + sp.length := by
    simp
    omega
  refine ⟨g ++ some nul :: (cells p ++ (cells (trim isspace k) ++ cells (blanked q))),
    g.length + 1 + p.length, by simp; omega, ?_⟩
  rw [hi]
  simpa using hrun

/-- In each call a NUL and newlines stand in front of the field, no newlines in front of a
value. -/
theorem StripCall.split {pre rest b : Buffer} {l : List UInt8} {str : ℕ}
    (h : StripCall (pre ++ (cells l ++ some nul :: rest)) pre.length b str) (hpre : Guarded pre)
    (hl : nul ∉ l) : ∃ k v, l = k ++ colon :: v ∧ colon ∉ k ∧ ∃ g sp s tail,
      b = g ++ some nul :: (cells sp ++ (cells s ++ some nul :: tail)) ∧
      b.length = (pre ++ (cells l ++ some nul :: rest)).length ∧
      str = g.length + 1 + sp.length ∧ (∀ c ∈ sp, lineSep c = true) ∧
      (sp = [] ∨ pre.length = g.length + 1 + sp.length) ∧
      (str = pre.length ∧ s = k ∨ str = pre.length + k.length + 1 ∧ s = v) := by
  have hcolon : colon ∈ l := by
    by_contra hnot
    have hchr := strchr_at pre rest (c := colon) (d := nul)
      (fun x hx => ⟨fun h => hl (h ▸ hx), fun h => hnot (h ▸ hx)⟩) (Or.inl rfl) rfl
    rw [if_neg (by decide)] at hchr
    cases h with
    | key hchr' | val hchr' =>
      rw [hchr] at hchr'
      cases hchr'
  obtain ⟨k, v, rfl, hk, -, -⟩ := exists_split_colon hcolon
  have hk0 : nul ∉ k := fun h => hl (List.mem_append_left _ h)
  refine ⟨k, v, rfl, hk, ?_⟩
  cases h with
  | key hchr hstore =>
    rw [strchr_colon pre rest v hk0 hk] at hchr
    cases hchr
    rw [store_colon] at hstore
    cases hstore
    obtain ⟨g, sp, rfl, hsp⟩ := hpre
    refine ⟨g, sp, k, cells v ++ some nul :: rest, by simp, by simp, by simp; omega, hsp,
      Or.inr (by simp; omega), Or.inl ⟨rfl, rfl⟩⟩
  | val hchr hstore hkey =>
    rw [strchr_colon pre rest v hk0 hk] at hchr
    cases hchr
    rw [store_colon] at hstore
    cases hstore
    obtain ⟨G, key, hG, hrun⟩ := hmsStrStrip_guarded hpre (cells v ++ some nul :: rest) hk0
    rw [hrun] at hkey
    cases hkey
    refine ⟨G, [], v, rest, rfl, by simp [hG]; omega, by simp [hG], by simp, Or.inl rfl,
      Or.inr ⟨rfl, rfl⟩⟩

/-- Every call of `__hms_str_strip` stops inside the header buffer, overwrites no byte but the
blank end of its field and newlines in front of its line, and leaves the trimmed field. -/
theorem strips_inside {text : List UInt8} {rest b : Buffer} {msg : HmsMsg} {bodyLen : ℤ}
    {line str : ℕ}
    (hcall : HeaderStripCall msg bodyLen (cells text ++ some nul :: rest) line b str) :
    ∃ l ∈ headerLines text, ∃ k v, l = k ++ colon :: v ∧ colon ∉ k ∧ ∃ field b' str' stop,
      (str = line ∧ field.bytes = k ∨ str = line + k.length + 1 ∧ field.bytes = v) ∧
      stringAt b str = .ok field ∧ b.length = (cells text ++ some nul :: rest).length ∧
      Strips b line str field b' str' stop := by
  obtain ⟨buffer', st, hbody, hcount, hstrip⟩ := hcall
  obtain ⟨rest', hsplit⟩ := cells_beforeNul text rest
  rw [hsplit] at hbody
  obtain ⟨l, hmem, pre, tail, rfl, rfl, hl, hQ, hlen⟩ := hbody.at_token headerBody_token
    (fun _ _ _ pre seps _ hseps _ => ⟨pre, seps, rfl, hseps⟩) (beforeNul text) [] rest' rfl rfl
    (nul_not_mem_beforeNul text) fun _ _ _ h => by simp at h
  obtain ⟨k, v, hkv, hk, g, sp, s, tail', rfl, hlen', rfl, hsp, hline, hfield⟩ :=
    hstrip.split (hQ (by omega)) hl
  have hs : nul ∉ s := by
    rcases hfield with ⟨-, rfl⟩ | ⟨-, rfl⟩
    · exact fun h => hl (by simp [hkv, h])
    · exact fun h => hl (by simp [hkv, h])
  obtain ⟨b', str', stop, hstrips⟩ := strips_at g tail' ⟨s, hs⟩ hsp hline
  have hread := stringAt_at (g ++ some nul :: cells sp) tail' hs (i := g.length + 1 + sp.length)
    (by simp; omega)
  refine ⟨l, hmem, k, v, hkv, hk, ⟨s, hs⟩, b', str', stop, hfield, ?_, ?_, hstrips⟩
  · rw [← CString.ofBytes_bytes ⟨s, hs⟩, ← hread]
    simp
  · rw [hlen', hlen, hsplit]

/-- A key of blanks behind a run of newlines. -/
theorem strips_inside_blankKey : ∃ b, HeaderStripCall hmsMsgCreate 0
      (cells (ascii "GET\n\n \t: \n") ++ [some nul]) 5 b 5 ∧ ∃ field b' str' stop,
    stringAt b 5 = .ok field ∧ Strips b 5 5 field b' str' stop := by
  have hcall : HeaderStripCall hmsMsgCreate 0
      (cells (ascii "GET\n\n \t: \n") ++ [some nul]) 5 _ 5 :=
    ⟨_, _, .next rfl rfl (.here rfl), by decide, .key rfl rfl⟩
  obtain ⟨l, -, k, v, -, -, field, b', str', stop, -, hread, -, hstrips⟩ := strips_inside hcall
  exact ⟨_, hcall, field, b', str', stop, hread, hstrips⟩

end Hermes
