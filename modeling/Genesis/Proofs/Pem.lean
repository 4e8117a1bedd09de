import Genesis.Pem
import Genesis.Proofs.Codec.Base64
import Genesis.Proofs.Codec.Bits
import Genesis.Proofs.Codec.Hex

/-! Blocks that are written one behind the other are read back with their keys. -/

namespace Genesis.Pem

section Lines

theorem splitLines_append {line : List Char} (h : '\n' ∉ line) (rest : List Char) :
    splitLines (line ++ '\n' :: rest) = line :: splitLines rest := by
  induction line with
  | nil => exact if_pos rfl
  | cons c line ih =>
    have hc : c ≠ '\n' := fun hc => h (hc ▸ List.mem_cons_self)
    have hline : '\n' ∉ line := fun hmem => h (List.mem_cons_of_mem c hmem)
    rw [List.cons_append, splitLines, if_neg hc, ih hline]

theorem splitLines_flatMap {lines : List (List Char)} (h : ∀ line ∈ lines, '\n' ∉ line) :
    splitLines (lines.flatMap (· ++ ['\n'])) = lines := by
  induction lines with
  | nil => rfl
  | cons line lines ih =>
    obtain ⟨hline, hlines⟩ := List.forall_mem_cons.mp h
    rw [List.flatMap_cons, List.append_assoc, List.singleton_append, splitLines_append hline,
      ih hlines]

end Lines

variable {identifier : List Char} {key : Bytes}

theorem stripStart_append (start text : List Char) :
    stripStart start (start ++ text) = some text := by
  induction start with
  | nil => rfl
  | cons c start ih => exact (if_pos rfl).trans ih

theorem identifierOf_firstLine (identifier : List Char) :
    identifierOf (firstLine identifier) = some identifier := by
  have hreverse : "-----".toList.reverse = "-----".toList := by decide
  unfold identifierOf firstLine
  rw [List.append_assoc, stripStart_append, Option.bind_eq_bind, Option.bind_some,
    List.reverse_append, hreverse, stripStart_append, Option.bind_some]
  exact congrArg some (List.reverse_reverse identifier)

theorem mem_payload {line : List Char} (h : line ∈ payload key) :
    ∀ c ∈ line, c ∈ Base64.alphabet ∨ c = '=' := by
  intro c hc
  have hflatten : (payload key).flatten = Base64.encode (Hex.utf8 (key.flatMap Hex.encodeByte)) :=
    flatten_chunksOf (by decide) _
  refine Base64.forall_mem_encode (Hex.utf8 (key.flatMap Hex.encodeByte)) c ?_
  rw [← hflatten]
  exact List.mem_flatten.mpr ⟨line, h, hc⟩

theorem keyOf_flatten_payload (key : Bytes) : keyOf (payload key).flatten = some key := by
  unfold keyOf payload
  rw [flatten_chunksOf (by decide), Base64.decode_encode, Option.bind_eq_bind, Option.bind_some,
    Hex.decodePairs_utf8_flatMap]
  rfl

theorem payload_eq_nil_iff : payload key = [] ↔ key = [] := by
  refine ⟨fun hnil => ?_, fun hnil => by rw [hnil]; rfl⟩
  have hkey := keyOf_flatten_payload key
  rw [hnil] at hkey
  exact (Option.some.inj hkey).symm

theorem newline_not_mem_frame {start : List Char} (hs : '\n' ∉ start) (h : '\n' ∉ identifier) :
    '\n' ∉ start ++ identifier ++ "-----".toList := by
  have hdashes : '\n' ∉ "-----".toList := by decide
  intro hmem
  rcases List.mem_append.mp hmem with hmem | hmem
  · rcases List.mem_append.mp hmem with hmem | hmem
    · exact hs hmem
    · exact h hmem
  · exact hdashes hmem

theorem newline_not_mem_blockLines (h : '\n' ∉ identifier) :
    ∀ line ∈ blockLines identifier key, '\n' ∉ line := by
  have hdigits : ¬('\n' ∈ Base64.alphabet ∨ '\n' = '=') := by decide
  intro line hline
  rw [blockLines, List.mem_append, List.mem_cons, List.mem_singleton, or_assoc] at hline
  rcases hline with rfl | hline | rfl
  · exact newline_not_mem_frame (by decide) h
  · exact fun hmem => hdigits (mem_payload hline _ hmem)
  · exact newline_not_mem_frame (by decide) h

theorem readBlocks_append {body lines : List (List Char)} (text : List Char)
    (h : ∀ line ∈ body, line ≠ lastLine identifier) :
    readBlocks (some (identifier, text)) (body ++ lines) =
      readBlocks (some (identifier, text ++ body.flatten)) lines := by
  induction body generalizing text with
  | nil => rw [List.nil_append, List.flatten_nil, List.append_nil]
  | cons line body ih =>
    obtain ⟨hline, hbody⟩ := List.forall_mem_cons.mp h
    rw [List.cons_append, readBlocks, if_neg hline, ih _ hbody, List.flatten_cons,
      List.append_assoc]

theorem readBlocks_blockLines (identifier : List Char) (key : Bytes) (lines : List (List Char)) :
    readBlocks none (blockLines identifier key ++ lines) =
      (readBlocks none lines).map ((String.ofList identifier, key) :: ·) := by
  -- there is no dash in base 64, so no line of the key is taken for the last line
  have hbody : ∀ line ∈ payload key, line ≠ lastLine identifier := by
    intro line hline heq
    have hdash : '-' ∈ lastLine identifier := List.mem_append_left _ (List.mem_append_left _
      (by decide))
    have hdigits : ¬('-' ∈ Base64.alphabet ∨ '-' = '=') := by decide
    exact hdigits (mem_payload hline '-' (heq ▸ hdash))
  unfold blockLines
  rw [List.cons_append, List.cons_append, List.append_assoc, readBlocks, identifierOf_firstLine,
    Option.bind_eq_bind, Option.bind_some, readBlocks_append _ hbody, List.singleton_append,
    readBlocks, if_pos rfl, List.nil_append, keyOf_flatten_payload]
  cases readBlocks none lines <;> rfl

theorem readBlocks_flatMap (entries : List (String × Bytes)) :
    readBlocks none (entries.flatMap fun e => blockLines e.1.toList e.2) = some entries := by
  induction entries with
  | nil => rfl
  | cons e entries ih =>
    rw [List.flatMap_cons, readBlocks_blockLines, ih, Option.map_some, String.ofList_toList]

variable {entries : List (String × Bytes)}

theorem splitLines_join (h : ∀ e ∈ entries, '\n' ∉ e.1.toList) :
    splitLines (String.join (entries.map fun e => block e.1 e.2)).toList =
      entries.flatMap fun e => blockLines e.1.toList e.2 := by
  have htext : (String.join (entries.map fun e => block e.1 e.2)).toList =
      (entries.flatMap fun e => blockLines e.1.toList e.2).flatMap (· ++ ['\n']) := by
    rw [String.toList_join, List.flatMap_map, List.flatMap_assoc]
    simp only [block, String.toList_ofList]
  have hlines : ∀ line ∈ entries.flatMap fun e => blockLines e.1.toList e.2, '\n' ∉ line := by
    intro line hline
    obtain ⟨e, he, hline⟩ := List.mem_flatMap.mp hline
    exact newline_not_mem_blockLines (h e he) line hline
  rw [htext, splitLines_flatMap hlines]

theorem read_join (h : ∀ e ∈ entries, '\n' ∉ e.1.toList) :
    read (String.join (entries.map fun e => block e.1 e.2)) = some entries := by
  rw [read, splitLines_join h, readBlocks_flatMap]

end Genesis.Pem
