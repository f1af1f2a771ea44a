import LeafPlan.Filter.Parser

/-!
# Prelude

The filters that are defined by other filters.
-/

namespace LeafPlan.Filter

namespace Prelude

def constants : List String :=
  ["def null: [][0];", "def true: 0 == 0;", "def false: 0 != 0;",
    "def infinite: 1 / 0;", "def nan: 0 / 0;",
    "def isinfinite: . == infinite or . == -infinite;", "def isnan: . < nan and nan < .;",
    "def isfinite: isnumber and (isinfinite | not);",
    "def isnormal: isnumber and ((. == 0 or isnan or isinfinite) | not);",
    "def not: if . then false else true end;",
    "def have_literal_numbers: true;", "def have_decnum: false;"]

def selections : List String :=
  ["def select(f): if f then . else empty end;",
    "def values: select(. != null);", "def nulls: select(. == null);",
    "def booleans: select(isboolean);", "def numbers: select(isnumber);", "def strings: select(isstring);",
    "def arrays: select(isarray);", "def objects: select(isobject);",
    "def iterables: select(isarray or isobject);", "def scalars: select((isarray or isobject) | not);",
    "def finites: select(isfinite);", "def normals: select(isnormal);",
    "def abs: if . < 0 then -. else . end;", "def toarray: if isarray then . else [.] end;"]

def traversals : List String :=
  ["def recurse(f): def rec: ., (f | rec); rec;", "def recurse: recurse(.[]?);",
    "def recurse(f; cond): recurse(f | select(cond));",
    "def repeat(f): def rec: ., (f | rec); rec;",
    "def while(cond; update): def rec: if cond then ., (update | rec) else empty end; rec;",
    "def until(cond; update): def rec: if cond then . else update | rec end; rec;",
    "def range($from; $to): range($from; $to; 1);", "def range($to): range(0; $to; 1);",
    "def map(f): [.[] | f];", "def map_values(f): .[] |= f;",
    "def walk(f): def rec: (.[]? |= rec) | f; rec;",
    "def isempty(g): first((g | false), true);",
    "def any(g; cond): isempty(first(g | select(cond))) | not;", "def any(cond): any(.[]; cond);",
    "def any: any(.[]; .);",
    "def all(g; cond): isempty(first(g | select(cond | not)));", "def all(cond): all(.[]; cond);",
    "def all: all(.[]; .);",
    "def add(f): reduce f as $x (null; . + $x);", "def add: add(.[]);",
    "def in(xs): . as $x | xs | has($x);", "def inside(xs): . as $x | xs | contains($x);",
    "def first: .[0];", "def last: .[-1];", "def nth(n): .[n];",
    "def nth($n; f): first(skip($n; f));",
    "def input: empty;", "def inputs: empty;",
    "def debug: .;", "def debug(msg): .;", "def stderr: .;"]

def lists : List String :=
  ["def min: min_by(.);", "def max: max_by(.);", "def unique: unique_by(.);",
    "def index($i): indices($i) | .[0];", "def rindex($i): indices($i) | .[-1];",
    "def flatten($depth): if $depth < 0 then error(\"flatten depth must not be negative\") else " ++
      "[.[] | if isarray and $depth > 0 then flatten($depth - 1)[] else . end] end;",
    "def flatten: [.[] | if isarray then flatten[] else . end];",
    "def transpose: [range([.[] | length] | max // 0) as $i | [.[][$i]]];",
    "def combinations: if length == 0 then [] else .[0][] as $x | (.[1:] | combinations) as $w | [$x] + $w end;",
    "def combinations(n): . as $dot | [range(n)] | map($dot) | combinations;",
    "def ascii: [.] | implode;",
    "def dateadd(u; n): . + n;", "def datesub(u; n): . - n;"]

def objects : List String :=
  ["def to_entries: [keys_unsorted[] as $k | \x7bkey: $k, value: .[$k]\x7d];",
    "def from_entries: reduce .[] as $x (\x7b\x7d; . + \x7b($x | " ++
      "(if .key == null then .k // .name // .Name // .K // .Key else .key end) | " ++
      "if isstring then . else tojson end): " ++
      "($x | if has(\"value\") then .value elif has(\"v\") then .v else .Value end)\x7d);",
    "def with_entries(f): to_entries | map(f) | from_entries;",
    "def del(f): f |= empty;",
    "def paths: path(..) | select(length > 0);",
    "def paths(f): path(.. | select(f)) | select(length > 0);", "def leaf_paths: paths(scalars);",
    "def getpath($p): if ($p | length) == 0 then . else .[$p[0]] | getpath($p[1:]) end;",
    "def tostream: path(def r: (.[]? | r), .; r) as $p | getpath($p) | " ++
      "reduce path(.[]?) as $q ([$p, .]; [$p + $q]);",
    "def IN(s): any(s == .; .);", "def IN(src; s): any(src == s; .);",
    "def INDEX(stream; f): reduce stream as $row (\x7b\x7d; . + \x7b($row | f | tostring): $row\x7d);",
    "def INDEX(f): INDEX(.[]; f);"]

def texts : List String :=
  ["def capture_of_match: reduce (.[] | select(has(\"name\"))) as $m (\x7b\x7d; . + \x7b($m.name): $m.string\x7d);",
    "def test(re; flags): matches(re; flags) | any;", "def test(re): test(re; \"\");",
    "def match(re; flags): matches(re; flags)[] | .[0] + \x7bcaptures: .[1:]\x7d;",
    "def match(re): match(re; \"\");",
    "def capture(re; flags): matches(re; flags)[] | capture_of_match;", "def capture(re): capture(re; \"\");",
    "def scan(re; flags): matches(re; \"g\" + flags)[] | .[0].string;", "def scan(re): scan(re; \"\");",
    "def splits(re; flags): split(re; flags)[];", "def splits(re): splits(re; \"\");",
    "def sub(re; f; flags): reduce split_matches(re; flags)[] as $x (\"\"; " ++
      ". + ($x | if isarray then capture_of_match | f else . end));",
    "def sub(re; f): sub(re; f; \"\");",
    "def gsub(re; f; flags): sub(re; f; \"g\" + flags);", "def gsub(re; f): gsub(re; f; \"\");"]

def source : List String := constants ++ selections ++ traversals ++ lists ++ objects ++ texts

/-- The definitions, each of which may use those in front of it. -/
def definitions : List Definition := source.flatMap fun s => (Definition.ofText? s).getD []

end Prelude

end LeafPlan.Filter
