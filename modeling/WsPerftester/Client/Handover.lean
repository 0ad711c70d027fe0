import WsPerftester.Lib.QuotedString

/-! # The connection id on its way to the signaling link

A mobile client takes the connection id from the response on the primary link and asks for the same
id on the signaling link. The id is read from a parameter list, where it may stand between quotes,
and is written into one by putting quotes around it. What the reader took away, the writer does not
put back: the hand-over keeps an id exactly when nothing in it has to be escaped
(`keeps_connection_id_iff`). -/

namespace WsPerftester

open QuotedString

/-- `websocketpp::http::attribute_list`, a map. -/
abbrev AttributeList := List (String × String)

/-- `websocketpp::http::parameter_list`. -/
abbrev ParameterList := List (String × AttributeList)

/-- `get_response_connection_id`: `plist` is what `get_header_as_plist` makes of the text of a
header, and `header` the `Sec-WebSocket-Extensions` of the response (`""` when there is none). The
last extension with a connection id wins. -/
def getResponseConnectionId (plist : String → ParameterList) (header : String) : String :=
  (plist header).foldl
    (fun connectionId it =>
      if it.1 = "mobile-signaling" then
        match it.2.lookup "connection_id" with
        | some value => value
        | none => connectionId
      else connectionId)
    ""

/-- The `Sec-WebSocket-Extensions` that `connect_signaling` puts into its request. -/
def connectSignalingExtensions (connectionId : String) : String :=
  "mobile-signaling; connection_id=\"" ++ connectionId ++ "\""

/-- A name that can stand in a parameter list. -/
def IsToken (name : String) : Prop := name ≠ "" ∧ ∀ c ∈ name.toList, isTokenChar c = true

/-- The name of the extension is one. -/
theorem mobileSignaling_isToken : IsToken "mobile-signaling" :=
  ⟨by simp, List.all_eq_true.mp rfl⟩

/-- And so is that of its attribute. -/
theorem connectionId_isToken : IsToken "connection_id" :=
  ⟨by simp, List.all_eq_true.mp rfl⟩

/-- What is known of `get_header_as_plist`. -/
structure ParsesLists (plist : String → ParameterList) (kept : Bool) : Prop where
  /-- A single parameter with one attribute, a quoted string that takes the rest of the text. -/
  quoted : ∀ {name attr content value : String}, IsToken name → IsToken attr →
    unquote kept (content.toList ++ [quote]) = some (value.toList, []) →
      plist (name ++ "; " ++ attr ++ "=\"" ++ content ++ "\"") = [(name, [(attr, value)])]
  /-- The value of an attribute is empty, a token or a quoted string. -/
  value : ∀ {text : String} {it : String × AttributeList} {a : String × String},
    it ∈ plist text → a ∈ it.2 → ReadFrom kept text.toList a.2.toList

/-- The signaling link asks for the same connection: the only extension is `mobile-signaling`, its
only attribute is `connection_id`, and the id read from it is the one it was made from. -/
def KeepsConnectionId (plist : String → ParameterList) (connectionId : String) : Prop :=
  (∃ value, plist (connectSignalingExtensions connectionId) =
      [("mobile-signaling", [("connection_id", value)])]) ∧
    getResponseConnectionId plist (connectSignalingExtensions connectionId) = connectionId

variable {plist : String → ParameterList} {kept : Bool}

/-- The id is empty, or the value of an attribute. -/
theorem getResponseConnectionId_readFrom (hplist : ParsesLists plist kept) (header : String) :
    ReadFrom kept header.toList (getResponseConnectionId plist header).toList := by
  apply List.foldlRecOn (motive := fun id : String => ReadFrom kept header.toList id.toList)
  · exact .inl (by simp)
  · intro connectionId hread it hit
    split
    · split
      · rename_i value hlookup
        obtain ⟨before, after, hattrs, -⟩ := List.lookup_eq_some_iff.mp hlookup
        exact hplist.value (a := ("connection_id", value)) hit (by rw [hattrs]; simp)
      · exact hread
    · exact hread

/-- What is read from a single extension with a single attribute. -/
theorem getResponseConnectionId_single {header value : String}
    (hheader : plist header = [("mobile-signaling", [("connection_id", value)])]) :
    getResponseConnectionId plist header = value := by
  rw [getResponseConnectionId, hheader]
  simp

/-- A text that ends with another text between quotes, in characters. -/
theorem toList_quoted {opening : String} {before : List Char}
    (hopening : opening.toList = before ++ [quote]) (content : String) :
    (opening ++ content ++ "\"").toList = before ++ quote :: (content.toList ++ [quote]) := by
  have hclosing : "\"".toList = [quote] := rfl
  simp only [String.toList_append, hopening, hclosing, List.append_assoc, List.cons_append,
    List.nil_append]

/-- The request in characters. -/
theorem connectSignalingExtensions_toList (connectionId : String) :
    (connectSignalingExtensions connectionId).toList =
      "mobile-signaling; connection_id=".toList ++ quote :: (connectionId.toList ++ [quote]) := by
  have hopening : "mobile-signaling; connection_id=\"".toList =
      "mobile-signaling; connection_id=".toList ++ [quote] := by decide
  exact toList_quoted hopening connectionId

/-- An id that a reader reads back from between quotes is read back from the request. -/
theorem keeps_of_unquote (hplist : ParsesLists plist kept) {connectionId : String}
    (hread : unquote kept (connectionId.toList ++ [quote]) = some (connectionId.toList, [])) :
    KeepsConnectionId plist connectionId := by
  have htext : connectSignalingExtensions connectionId =
      "mobile-signaling" ++ "; " ++ "connection_id" ++ "=\"" ++ connectionId ++ "\"" := rfl
  have hsingle : plist (connectSignalingExtensions connectionId) =
      [("mobile-signaling", [("connection_id", connectionId)])] := by
    rw [htext]
    exact hplist.quoted mobileSignaling_isToken connectionId_isToken hread
  exact ⟨⟨connectionId, hsingle⟩, getResponseConnectionId_single hsingle⟩

/-- **When the connection id survives the hand-over.** There is no double quote in it, nor, if the
reader also resolves a backslash in front of other characters, a backslash. -/
theorem keeps_connection_id_iff (hplist : ParsesLists plist kept) {header connectionId : String}
    (hid : getResponseConnectionId plist header = connectionId) :
    KeepsConnectionId plist connectionId ↔ Plain kept connectionId.toList := by
  constructor
  · rintro ⟨⟨value, hsingle⟩, hkeeps⟩
    obtain rfl : value = connectionId := (getResponseConnectionId_single hsingle).symm.trans hkeeps
    have hit : ("mobile-signaling", [("connection_id", value)]) ∈
        plist (connectSignalingExtensions value) := by
      rw [hsingle]
      exact List.mem_singleton_self _
    have hread := hplist.value hit (List.mem_singleton_self _)
    rw [connectSignalingExtensions_toList] at hread
    exact hread.plain (by decide)
  · intro hplain
    refine keeps_of_unquote hplist (unquote_append hplain ?_ [])
    rintro rfl
    exact (hid ▸ getResponseConnectionId_readFrom hplist header).getLast

/-! ## A reader -/

/-- Read the first parameter of a list with its first attribute, a quoted string. -/
def firstParameter (kept : Bool) (text : String) : ParameterList :=
  match text.toList.dropWhile isTokenChar with
  | ';' :: ' ' :: cs =>
      match cs.dropWhile isTokenChar with
      | '=' :: '\x22' :: content =>
          match unquote kept content with
          | some (value, _) =>
              [(String.ofList (text.toList.takeWhile isTokenChar),
                [(String.ofList (cs.takeWhile isTokenChar), String.ofList value)])]
          | none => []
      | _ => []
  | _ => []

/-- What it reads, and what it does not look at. -/
theorem firstParameter_eq {name attr content value : String} {rest : List Char}
    (hname : IsToken name) (hattr : IsToken attr)
    (hread : unquote kept content.toList = some (value.toList, rest)) :
    firstParameter kept (name ++ "; " ++ attr ++ "=\"" ++ content) = [(name, [(attr, value)])] := by
  have hsemicolon : isTokenChar ';' = false := by decide
  have hequals : isTokenChar '=' = false := by decide
  have htext : (name ++ "; " ++ attr ++ "=\"" ++ content).toList =
      name.toList ++ ';' :: ' ' :: (attr.toList ++ '=' :: quote :: content.toList) := by
    have hthen : "; ".toList = [';', ' '] := rfl
    have hvalue : "=\"".toList = ['=', quote] := rfl
    simp only [String.toList_append, hthen, hvalue, List.append_assoc, List.cons_append,
      List.nil_append]
  rw [firstParameter, htext, List.dropWhile_append_of_pos hname.2,
    List.takeWhile_append_of_pos hname.2, List.dropWhile_cons_of_neg (by simp [hsemicolon]),
    List.takeWhile_cons_of_neg (by simp [hsemicolon])]
  simp [List.dropWhile_append_of_pos hattr.2, List.takeWhile_append_of_pos hattr.2, hread, hequals]

/-- It reads parameter lists as far as it reads them. -/
theorem firstParameter_parses (kept : Bool) : ParsesLists (firstParameter kept) kept where
  quoted {name attr content value} hname hattr hread := by
    have hclosing : "\"".toList = [quote] := rfl
    rw [String.append_assoc]
    exact firstParameter_eq hname hattr (by rwa [String.toList_append, hclosing])
  value {text it a} hit ha := by
    unfold firstParameter at hit
    split at hit
    case h_2 => cases hit
    rename_i cs hcs
    split at hit
    case h_2 => cases hit
    rename_i content hcontent
    split at hit
    case h_2 => cases hit
    rename_i value rest hread
    obtain rfl := List.mem_singleton.mp hit
    obtain rfl := List.mem_singleton.mp ha
    refine .inr ⟨text.toList.takeWhile isTokenChar ++ ';' :: ' ' ::
      (cs.takeWhile isTokenChar ++ ['=']), content, rest, ?_, by simpa using hread⟩
    calc text.toList
        = text.toList.takeWhile isTokenChar ++ ';' :: ' ' :: cs := by
          rw [← hcs, List.takeWhile_append_dropWhile]
      _ = text.toList.takeWhile isTokenChar ++ ';' :: ' ' ::
            (cs.takeWhile isTokenChar ++ '=' :: quote :: content) := by
          rw [← hcontent, List.takeWhile_append_dropWhile]
      _ = _ := by simp

/-- A response whose connection id has a double quote in it: the request asks for what precedes
the quote. -/
theorem quote_cuts_id :
    ParsesLists (firstParameter true) true ∧
      getResponseConnectionId (firstParameter true) "mobile-signaling; connection_id=\"a\\\"b\"" =
        "a\"b" ∧
      ¬ KeepsConnectionId (firstParameter true) "a\"b" := by
  have hread : unquote true "a\\\"b\"".toList = some ("a\"b".toList, []) := by decide
  have hcut : unquote true "a\"b\"".toList = some ("a".toList, "b\"".toList) := by decide
  have hresponse := firstParameter_eq mobileSignaling_isToken connectionId_isToken hread
  have hrequest := firstParameter_eq mobileSignaling_isToken connectionId_isToken hcut
  refine ⟨firstParameter_parses true, getResponseConnectionId_single hresponse, fun hkeeps => ?_⟩
  have hid : "a" = "a\"b" := (getResponseConnectionId_single hrequest).symm.trans hkeeps.2
  exact absurd hid (by decide)

/-- `keeps_connection_id_iff` for an id without one. -/
theorem plain_id_kept : KeepsConnectionId (firstParameter true) "a1" := by
  have hread : unquote true ("a1".toList ++ [quote]) = some ("a1".toList, []) := by decide
  have hresponse := (firstParameter_parses true).quoted mobileSignaling_isToken
    connectionId_isToken hread
  exact (keeps_connection_id_iff (firstParameter_parses true)
    (getResponseConnectionId_single hresponse)).mpr (by decide)

end WsPerftester
