import EmbeddedSolidity.Proofs.Source.LineEnds
import EmbeddedSolidity.Source.Literal

/-!
# Line ends in strings

A string stands at the front of a text without carriage returns if and only if one stands at the front
of its copy. A cooked string has the same value in the copy, since its line ends are line feeds however
they are written, but the value of a raw string is copied too (`copied`). Single characters are the same,
except for a line feed in quotes, which is no literal in the copy (`quotesLineFeed`).

* `escape?_crlf` : escapes and line continuations;
* `cooked_crlf`, `raw_crlf`, `string?_crlf` : strings;
* `single?_crlf` : characters and bytes.
-/

namespace EmbeddedSolidity.Source

variable {c : Char} {cs rest : List Char}

/-! ## Escapes -/

theorem hexValue?_newline : hexValue? '\n' = none := by decide

theorem hexValue?_return : hexValue? '\r' = none := by decide

theorem codePoint?_crlf (count value : Nat) (cs : List Char) :
    codePoint? count value (crlf cs) = codePoint? count value cs ∧
      Inline cs ((codePoint? count value cs).map (·.2)) := by
  induction cs generalizing count value with
  | nil => exact ⟨rfl, inline_none _⟩
  | cons c cs ih =>
    by_cases hc : c = '\n'
    · subst hc
      simp [codePoint?, hexValue?_newline, hexValue?_return, inline_none]
    · have hmore : ∀ count value, Inline (c :: cs) (((codePoint? count value cs).map
          fun found => (found.1, found.2 + 1)).map (·.2)) := fun count value => by
        have hnext := (ih count value).2.succ hc
        rwa [Option.map_map] at hnext ⊢
      rw [crlf_cons hc]
      unfold codePoint?
      split_ifs
      · refine ⟨rfl, ?_⟩
        rw [Option.map_map]
        cases charOf? value with
        | none => exact inline_none _
        | some e => exact (inline_zero cs).succ hc
      · rw [(ih count value).1]
        exact ⟨rfl, hmore count value⟩
      · exact ⟨by split <;> rfl, by split <;> exact inline_none _⟩
      · split
        · rw [(ih _ _).1]
          exact ⟨rfl, hmore _ _⟩
        · exact ⟨rfl, inline_none _⟩

theorem continuation?_cons (hc : c ≠ '\r') (rest : List Char) : continuation? (c :: rest) =
    if c = ' ' ∨ c = '\t' ∨ c = '\n' then (continuation? rest).map (· + 1) else some 0 := by
  rw [continuation?]
  · exact fun rest heq => absurd heq hc
  · exact hc

/-- A line continuation in the copy goes as far as in the text. -/
theorem continuation?_crlf (hreturns : '\r' ∉ cs) :
    continuation? (crlf cs) = (continuation? cs).map fun n => (crlf (cs.take n)).length := by
  induction cs with
  | nil => rfl
  | cons c cs ih =>
    rw [List.mem_cons, not_or] at hreturns
    rw [continuation?_cons (Ne.symm hreturns.1)]
    by_cases hc : c = '\n'
    · subst hc
      rw [crlf_newline, continuation?, ih hreturns.2]
      cases continuation? cs <;> simp
    · rw [crlf_cons hc, continuation?_cons (Ne.symm hreturns.1), ih hreturns.2]
      split_ifs
      · cases continuation? cs <;> simp [crlf_cons hc]
      · rfl

theorem twoDigits?_of_left (kind : StringKind) {high : Char} (h : hexValue? high = none) (low : Char) :
    twoDigits? kind high low = none := by
  simp [twoDigits?, h]

theorem twoDigits?_of_right (kind : StringKind) (high : Char) {low : Char} (h : hexValue? low = none) :
    twoDigits? kind high low = none := by
  simp [twoDigits?, h]

theorem charEscape?_short (kind : StringKind) (hx : c ≠ 'x') (hu : c ≠ 'u') (rest : List Char) :
    charEscape? kind (c :: rest) = (shortEscape? c).map (·, 1) := by
  rw [charEscape?]
  · exact fun _ _ _ heq => absurd heq hx
  · exact fun _ heq => absurd heq hu

theorem charEscape?_u (kind : StringKind) (hc : c ≠ '\x7b') (rest : List Char) :
    charEscape? kind ('u' :: c :: rest) = none := by
  rw [charEscape?]
  · rfl
  · exact fun _ _ _ heq => absurd heq (by decide)
  · exact fun _ _ heq => absurd (List.cons.inj heq).1 hc

/-- An escape of a character is on one line, and the same in the copy. -/
theorem charEscape?_crlf (kind : StringKind) (cs : List Char) :
    charEscape? kind (crlf cs) = charEscape? kind cs ∧
      Inline cs ((charEscape? kind cs).map (·.2)) := by
  have hthree : ∀ {c high low : Char} {rest : List Char} {e : Option Char}, c ≠ '\n' →
      high ≠ '\n' → low ≠ '\n' →
      Inline (c :: high :: low :: rest) ((e.map (·, 3)).map (·.2)) := fun {c high low rest e} hc hh hl => by
    have hmore := (((inline_zero rest).succ hl).succ hh).succ hc
    cases e with
    | none => exact inline_none _
    | some e => exact hmore
  match cs with
  | [] => exact ⟨rfl, inline_none _⟩
  | c :: rest =>
    by_cases hc : c = '\n'
    · subst hc
      exact ⟨rfl, inline_none _⟩
    rw [crlf_cons hc]
    by_cases hx : c = 'x'
    · subst hx
      match rest with
      | [] => exact ⟨rfl, inline_none _⟩
      | [high] =>
        by_cases hh : high = '\n'
        · subst hh
          rw [crlf_newline]
          change (twoDigits? kind '\r' '\n').map (·, 3) = none ∧ _
          rw [twoDigits?_of_left kind hexValue?_return]
          exact ⟨rfl, inline_none _⟩
        · rw [crlf_cons hh]
          exact ⟨rfl, inline_none _⟩
      | high :: low :: rest =>
        change _ = (twoDigits? kind high low).map (·, 3) ∧
          Inline _ (((twoDigits? kind high low).map (·, 3)).map (·.2))
        by_cases hh : high = '\n'
        · subst hh
          rw [crlf_newline, twoDigits?_of_left kind hexValue?_newline]
          change (twoDigits? kind '\r' '\n').map (·, 3) = none ∧ _
          rw [twoDigits?_of_left kind hexValue?_return]
          exact ⟨rfl, inline_none _⟩
        · rw [crlf_cons hh]
          by_cases hl : low = '\n'
          · subst hl
            rw [crlf_newline, twoDigits?_of_right kind high hexValue?_newline]
            change (twoDigits? kind high '\r').map (·, 3) = none ∧ _
            rw [twoDigits?_of_right kind high hexValue?_return]
            exact ⟨rfl, inline_none _⟩
          · rw [crlf_cons hl]
            exact ⟨rfl, hthree (by decide) hh hl⟩
    · by_cases hu : c = 'u'
      · subst hu
        match rest with
        | [] => exact ⟨rfl, inline_none _⟩
        | d :: rest =>
          by_cases hd : d = '\x7b'
          · subst hd
            rw [crlf_cons (by decide)]
            change (if kind = .bytes then none else (codePoint? 0 0 (crlf rest)).map _) =
              (if kind = .bytes then none else (codePoint? 0 0 rest).map _) ∧
              Inline _ ((if kind = .bytes then none else (codePoint? 0 0 rest).map _).map _)
            obtain ⟨heq, hfront⟩ := codePoint?_crlf 0 0 rest
            rw [heq]
            refine ⟨rfl, ?_⟩
            split_ifs
            · exact inline_none _
            · have hmore := (hfront.succ (c := '\x7b') (by decide)).succ (c := 'u') (by decide)
              rw [Option.map_map, Option.map_map] at hmore
              rw [Option.map_map]
              exact hmore
          · rw [charEscape?_u kind hd]
            by_cases hn : d = '\n'
            · subst hn
              exact ⟨rfl, inline_none _⟩
            · rw [crlf_cons hn, charEscape?_u kind hd]
              exact ⟨rfl, inline_none _⟩
      · rw [charEscape?_short kind hx hu, charEscape?_short kind hx hu]
        refine ⟨rfl, ?_⟩
        have hone := (inline_zero rest).succ hc
        cases shortEscape? c with
        | none => exact inline_none _
        | some e => exact hone

/-- What an escape stands for and where it ends is the same in the copy. -/
theorem escape?_crlf (kind : StringKind) (hreturns : '\r' ∉ cs) :
    (escape? kind cs = none → escape? kind (crlf cs) = none) ∧
      ∀ value n, escape? kind cs = some (value, n) →
        ∃ m, escape? kind (crlf cs) = some (value, m) ∧ (crlf cs).drop m = crlf (cs.drop n) := by
  match cs with
  | [] => exact ⟨id, nofun⟩
  | c :: rest =>
    have hreturn : c ≠ '\r' := fun hc => hreturns (hc ▸ List.mem_cons_self)
    by_cases hc : c = '\n'
    · have hcopy : escape? kind (crlf (c :: rest)) = (continuation? (crlf (c :: rest))).map ([], ·) := by
        subst hc
        rfl
      have htext : escape? kind (c :: rest) = (continuation? (c :: rest)).map ([], ·) := by
        subst hc
        rfl
      rw [hcopy, htext, continuation?_crlf hreturns]
      cases continuation? (c :: rest) with
      | none => exact ⟨fun _ => rfl, nofun⟩
      | some n =>
        refine ⟨nofun, fun value k hk => ?_⟩
        obtain ⟨rfl, rfl⟩ := Prod.mk.inj (Option.some.inj hk)
        refine ⟨_, rfl, ?_⟩
        have hsplit := crlf_append ((c :: rest).take n) ((c :: rest).drop n)
        rw [List.take_append_drop] at hsplit
        dsimp only
        rw [hsplit, List.drop_left]
    · obtain ⟨heq, hfront⟩ := charEscape?_crlf kind (c :: rest)
      have hends : ¬ (c = '\n' ∨ c = '\r') := not_or.2 ⟨hc, hreturn⟩
      rw [crlf_cons hc] at heq ⊢
      unfold escape?
      dsimp only
      rw [if_neg hends, if_neg hends, heq]
      cases hescape : charEscape? kind (c :: rest) with
      | none => exact ⟨id, nofun⟩
      | some found =>
        obtain ⟨e, n⟩ := found
        dsimp only
        refine ⟨id, fun value k hk => ⟨k, hk, ?_⟩⟩
        split_ifs at hk
        cases hk
        rw [← crlf_cons hc]
        exact drop_crlf (hfront n (by rw [hescape]; rfl))

/-! ## Strings -/

theorem allows_newline (kind : StringKind) : kind.allows '\n' = true := by
  cases kind <;> decide

theorem map_onto_map (front : List Char) (f : List Char → List Char)
    (found : Option (List Char × List Char)) :
    (found.map fun x => (x.1, f x.2)).map (onto front) =
      (found.map (onto front)).map fun x => (x.1, f x.2) := by
  cases found <;> rfl

theorem cooked_skip (kind : StringKind) (n : Nat) (cs : List Char) :
    cooked kind n cs = cooked kind 0 (cs.drop n) := by
  induction n generalizing cs with
  | zero => rfl
  | succ n ih =>
    cases cs with
    | nil => simp [cooked]
    | cons c cs => rw [cooked, ih, List.drop_succ_cons]

/-- A cooked string has the same value in the copy. -/
theorem cooked_crlf (kind : StringKind) : ∀ (cs : List Char), '\r' ∉ cs →
    cooked kind 0 (crlf cs) = (cooked kind 0 cs).map fun found => (found.1, crlf found.2)
  | [], _ => rfl
  | c :: rest, hreturns => by
    rw [List.mem_cons, not_or] at hreturns
    have hreturn : c ≠ '\r' := Ne.symm hreturns.1
    have hnext := cooked_crlf kind rest hreturns.2
    by_cases hc : c = '\n'
    · subst hc
      have htext : cooked kind 0 ('\n' :: rest) = (cooked kind 0 rest).map (onto ['\n']) := by
        simp [cooked, allows_newline]
      have hcopy : cooked kind 0 (crlf ('\n' :: rest)) =
          (cooked kind 0 (crlf rest)).map (onto ['\n']) := by
        simp [cooked]
      rw [htext, hcopy, hnext, map_onto_map]
    · rw [crlf_cons hc]
      unfold cooked
      split_ifs with hquote hbackslash
      · rfl
      · obtain ⟨hnone, hsome⟩ := escape?_crlf kind hreturns.2
        cases hescape : escape? kind rest with
        | none =>
          rw [hnone hescape]
          rfl
        | some found =>
          obtain ⟨value, n⟩ := found
          obtain ⟨m, hm, hdrop⟩ := hsome value n hescape
          rw [hm]
          dsimp only
          have hlength : (rest.drop n).length < (c :: rest).length := by
            rw [List.length_drop, List.length_cons]
            omega
          rw [cooked_skip, hdrop, cooked_crlf kind (rest.drop n) fun h =>
            hreturns.2 (List.mem_of_mem_drop h), map_onto_map, ← cooked_skip]
      · rw [hnext, map_onto_map]
      · rfl
termination_by cs => cs.length

theorem startsWithHashes_cons (n : Nat) (hc : c ≠ '#') (rest : List Char) :
    startsWithHashes (n + 1) (c :: rest) = false := by
  rw [startsWithHashes]
  exact fun _ heq => absurd (List.cons.inj heq).1 hc

theorem startsWithHashes_crlf (n : Nat) (cs : List Char) :
    startsWithHashes n (crlf cs) = startsWithHashes n cs ∧
      (startsWithHashes n cs = true → '\n' ∉ cs.take n) := by
  induction n generalizing cs with
  | zero => exact ⟨by simp [startsWithHashes], fun _ => List.not_mem_nil⟩
  | succ n ih =>
    match cs with
    | [] => exact ⟨rfl, nofun⟩
    | c :: rest =>
      by_cases hc : c = '#'
      · subst hc
        rw [crlf_cons (by decide), startsWithHashes, startsWithHashes, List.take_succ_cons,
          List.mem_cons, not_or]
        exact ⟨(ih rest).1, fun h => ⟨by decide, (ih rest).2 h⟩⟩
      · rw [startsWithHashes_cons n hc]
        refine ⟨?_, nofun⟩
        by_cases hn : c = '\n'
        · subst hn
          exact startsWithHashes_cons n (by decide) _
        · rw [crlf_cons hn, startsWithHashes_cons n hc]

theorem raw_cons (kind : StringKind) (hashes : Nat) (hquote : c ≠ '"') (hreturn : c ≠ '\r')
    (rest : List Char) : raw kind hashes (c :: rest) =
      if kind.allows c then (raw kind hashes rest).map (onto [c]) else none := by
  rw [raw]
  · exact fun heq => absurd heq hquote
  · exact fun _ heq => absurd heq hreturn
  · exact fun heq => absurd heq hreturn

/-- A raw string has the copy of its value in the copy. -/
theorem raw_crlf (kind : StringKind) (hashes : Nat) (hreturns : '\r' ∉ cs) :
    raw kind hashes (crlf cs) =
      (raw kind hashes cs).map fun found => (crlf found.1, crlf found.2) := by
  induction cs with
  | nil => rfl
  | cons c rest ih =>
    rw [List.mem_cons, not_or] at hreturns
    have honto : ∀ found : Option (List Char × List Char),
        (found.map fun x => (crlf x.1, crlf x.2)).map (onto (crlf [c])) =
          (found.map (onto [c])).map fun x => (crlf x.1, crlf x.2) := fun found => by
      cases found with
      | none => rfl
      | some x => simp [onto, ← crlf_append]
    by_cases hquote : c = '"'
    · subst hquote
      obtain ⟨heq, hfront⟩ := startsWithHashes_crlf hashes rest
      rw [crlf_cons (by decide), raw, raw, heq]
      split_ifs with hstarts
      · rw [drop_crlf (hfront hstarts)]
        rfl
      · rw [ih hreturns.2]
        exact honto _
    · rw [raw_cons kind hashes hquote (Ne.symm hreturns.1)]
      by_cases hc : c = '\n'
      · subst hc
        rw [crlf_newline, raw, ih hreturns.2, if_pos (allows_newline kind)]
        exact honto _
      · rw [crlf_cons hc, raw_cons kind hashes hquote (Ne.symm hreturns.1), ih hreturns.2]
        split_ifs
        · have hone := honto (raw kind hashes rest)
          rwa [crlf_cons hc] at hone
        · rfl

theorem rawString?_crlf (kind : StringKind) (hreturns : '\r' ∉ cs) :
    rawString? kind (crlf cs) =
      (rawString? kind cs).map fun found => (crlf found.1, crlf found.2) := by
  have hhashes : StopsAtLineEnd (· == '#') := ⟨by decide, by decide⟩
  unfold rawString?
  dsimp only
  rw [takeWhile_crlf hhashes, drop_crlf (not_mem_take_length hhashes cs)]
  have hrest : '\r' ∉ cs.drop (cs.takeWhile (· == '#')).length :=
    fun h => hreturns (List.mem_of_mem_drop h)
  generalize cs.drop (cs.takeWhile (· == '#')).length = rest at hrest
  split
  · next copy hcopy =>
    obtain ⟨rest, rfl, rfl⟩ := of_crlf_eq_cons hcopy (by decide)
    split_ifs
    · exact raw_crlf kind _ fun h => hrest (List.mem_cons_of_mem _ h)
    · rfl
  · next hother =>
    split
    · next rest => exact absurd (crlf_cons (by decide) rest) (hother _)
    · rfl

/-- The literal is written raw. -/
def isRaw : List Char → Bool
  | 'r' :: _ | 'b' :: 'r' :: _ | 'c' :: 'r' :: _ => true
  | _ => false

/-- What a value is in the copy of the text at whose front it is written. -/
def copied (cs value : List Char) : List Char :=
  if isRaw cs then crlf value else value

theorem string?_crlf (hreturns : '\r' ∉ cs) :
    string? (crlf cs) = (string? cs).map fun x => (x.1, copied cs x.2.1, crlf x.2.2) := by
  have hcooked : ∀ {kind : StringKind} {cs rest : List Char}, isRaw cs = false → '\r' ∉ rest →
      (cooked kind 0 (crlf rest)).map (kind, ·) =
        ((cooked kind 0 rest).map (kind, ·)).map fun x => (x.1, copied cs x.2.1, crlf x.2.2) := by
    intro kind cs rest hcooked hrest
    rw [cooked_crlf kind rest hrest]
    cases cooked kind 0 rest with
    | none => rfl
    | some x => simp [copied, hcooked]
  have hraw : ∀ {kind : StringKind} {cs rest : List Char}, isRaw cs = true → '\r' ∉ rest →
      (rawString? kind (crlf rest)).map (kind, ·) =
        ((rawString? kind rest).map (kind, ·)).map fun x => (x.1, copied cs x.2.1, crlf x.2.2) := by
    intro kind cs rest hraw hrest
    rw [rawString?_crlf kind hrest]
    cases rawString? kind rest with
    | none => rfl
    | some x => simp [copied, hraw]
  have hone : ∀ {c : Char} {rest : List Char}, '\r' ∉ c :: rest → '\r' ∉ rest :=
    fun h hmem => h (List.mem_cons_of_mem _ hmem)
  unfold string?
  split
  · next copy hcopy =>
    obtain ⟨rest, rfl, rfl⟩ := of_crlf_eq_cons hcopy (by decide)
    exact hcooked rfl (hone hreturns)
  · next copy hcopy =>
    obtain ⟨rest, rfl, rfl⟩ := of_crlf_eq_cons hcopy (by decide)
    exact hraw rfl (hone hreturns)
  · next copy hcopy =>
    obtain ⟨rest, rfl, rfl⟩ := of_crlf_eq_cons_cons hcopy (by decide) (by decide)
    exact hcooked rfl (hone (hone hreturns))
  · next copy hcopy =>
    obtain ⟨rest, rfl, rfl⟩ := of_crlf_eq_cons_cons hcopy (by decide) (by decide)
    exact hraw rfl (hone (hone hreturns))
  · next copy hcopy =>
    obtain ⟨rest, rfl, rfl⟩ := of_crlf_eq_cons_cons hcopy (by decide) (by decide)
    exact hcooked rfl (hone (hone hreturns))
  · next copy hcopy =>
    obtain ⟨rest, rfl, rfl⟩ := of_crlf_eq_cons_cons hcopy (by decide) (by decide)
    exact hraw rfl (hone (hone hreturns))
  · next h1 h2 h3 h4 h5 h6 =>
    split
    · next rest => exact absurd (crlf_cons (by decide) rest) (h1 _)
    · next rest => exact absurd (crlf_cons (by decide) rest) (h2 _)
    · next rest => exact absurd (crlf_cons_cons (by decide) (by decide) rest) (h3 _)
    · next rest => exact absurd (crlf_cons_cons (by decide) (by decide) rest) (h4 _)
    · next rest => exact absurd (crlf_cons_cons (by decide) (by decide) rest) (h5 _)
    · next rest => exact absurd (crlf_cons_cons (by decide) (by decide) rest) (h6 _)
    · rfl

/-! ## Single characters -/

/-- A line feed is quoted as a character or as a byte. -/
def quotesLineFeed : List Char → Bool
  | '\'' :: '\n' :: '\'' :: _ | 'b' :: '\'' :: '\n' :: '\'' :: _ => true
  | _ => false

theorem closeQuote?_crlf (cs : List Char) : closeQuote? (crlf cs) = (closeQuote? cs).map crlf := by
  unfold closeQuote?
  split
  · next copy hcopy =>
    obtain ⟨rest, rfl, rfl⟩ := of_crlf_eq_cons hcopy (by decide)
    rfl
  · next hother =>
    split
    · next rest => exact absurd (crlf_cons (by decide) rest) (hother _)
    · rfl

/-- What follows a character that is not a line feed. -/
theorem character?_crlf (kind : StringKind) (hfeed : ∀ rest, cs ≠ '\n' :: '\'' :: rest) :
    character? kind (crlf cs) = (character? kind cs).map crlf := by
  match cs with
  | [] => rfl
  | c :: rest =>
    by_cases hc : c = '\n'
    · subst hc
      have htext : closeQuote? rest = none := by
        unfold closeQuote?
        split
        · next rest => exact absurd rfl (hfeed rest)
        · rfl
      have hcopy : character? kind ('\r' :: '\n' :: crlf rest) = none := by
        cases kind <;> rfl
      rw [crlf_newline, hcopy]
      unfold character?
      dsimp only
      rw [htext]
      cases kind <;> rfl
    · rw [crlf_cons hc]
      unfold character?
      dsimp only
      split_ifs
      · obtain ⟨heq, hfront⟩ := charEscape?_crlf kind rest
        rw [heq]
        cases hescape : charEscape? kind rest with
        | none => rfl
        | some found =>
          obtain ⟨e, n⟩ := found
          dsimp only
          rw [drop_crlf (hfront n (by rw [hescape]; rfl)), closeQuote?_crlf]
      · exact closeQuote?_crlf rest
      · rfl

theorem single?_crlf (hfeed : quotesLineFeed cs = false) :
    single? (crlf cs) = (single? cs).map crlf := by
  unfold single?
  split
  · next copy hcopy =>
    obtain ⟨rest, rfl, rfl⟩ := of_crlf_eq_cons_cons hcopy (by decide) (by decide)
    refine character?_crlf .bytes fun r hr => ?_
    rw [hr] at hfeed
    cases hfeed
  · next copy hcopy =>
    obtain ⟨rest, rfl, rfl⟩ := of_crlf_eq_cons hcopy (by decide)
    refine character?_crlf .text fun r hr => ?_
    rw [hr] at hfeed
    cases hfeed
  · next h1 h2 =>
    split
    · next rest => exact absurd (crlf_cons_cons (by decide) (by decide) rest) (h1 _)
    · next rest => exact absurd (crlf_cons (by decide) rest) (h2 _)
    · rfl

end EmbeddedSolidity.Source
