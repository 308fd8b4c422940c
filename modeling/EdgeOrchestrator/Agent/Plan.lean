import EdgeOrchestrator.Agent.Workspace

/-!
# The plan without a model

The agent looks for the files of the common build systems, one system after the other, and takes the
commands of the first that it finds. The commands install a missing tool first.
-/

namespace EdgeOrchestrator.Agent

structure Plan where
  buildCmd : List String
  runCmd : List String
  workDir : String
  deriving DecidableEq, Repr

def endsWith (text suffix : String) : Bool := suffix.toList.isSuffixOf text.toList

/-- Some file has the name, in whatever directory. -/
def has (info : WorkspaceInfo) (name : String) : Bool :=
  info.files.any fun file ↦ file == name || endsWith file ("/" ++ name)

def firstWithExt (info : WorkspaceInfo) (ext : String) : Option String :=
  info.files.find? (endsWith · ext)

/-- `MIRRORS`, in the order in which they are tried. -/
def mirrors : List String :=
  ["https://mirrors.tuna.tsinghua.edu.cn/debian", "https://mirrors.ustc.edu.cn/debian",
    "https://mirrors.aliyun.com/debian", "http://deb.debian.org/debian"]

/-- Shell code that repoints the package sources at the first mirror that can be reached. -/
def aptMirrorSetup : String :=
  "\n".intercalate
    ["MIRROR=''; for m in " ++ " ".intercalate mirrors ++ "; do",
      "             if curl -sf -o /dev/null --max-time 8 \"$m/dists/stable/Release\" \\",
      "             || curl -sf -o /dev/null --max-time 8 \"$m/dists/trixie/Release\"; " ++
        "then MIRROR=\"$m\"; break; fi",
      "           done",
      "           if [ -n \"$MIRROR\" ]; then",
      "             for f in /etc/apt/sources.list /etc/apt/sources.list.d/*.sources; do",
      "               [ -f \"$f\" ] || continue",
      "               sed -i.bak -E " ++
        "\"s#https?://(deb|security|ftp)\\.debian\\.org/debian(-security)?#$MIRROR#g\" \"$f\" " ++
        "&& rm -f \"$f.bak\"",
      "             done",
      "             echo \"apt mirror: $MIRROR\"",
      "           else",
      "             echo \"apt mirror: candidates unreachable, keeping the image default\"",
      "           fi"]

/-- Shell code that installs a package when its command is missing. -/
def ensureTool (pkg : String) : String :=
  let apt := "DEBIAN_FRONTEND=noninteractive apt-get"
  let noDebSrc := "-o Acquire::IndexTargets::deb-src::DefaultEnabled=false"
  let locks := "rm -f /var/lib/apt/lists/lock /var/lib/dpkg/lock /var/lib/dpkg/lock-frontend"
  let update := apt ++ " " ++ noDebSrc ++ " update -qq || true"
  "\n".intercalate
    ["(command -v " ++ pkg ++ " >/dev/null 2>&1 || (",
      "  " ++ aptMirrorSetup,
      "  " ++ locks,
      "  set -- /var/lib/apt/lists/*Packages*",
      "  if [ ! -e \"$1\" ]; then " ++ update ++ "; fi",
      "  " ++ apt ++ " install -y -qq " ++ pkg ++ " || (",
      "    " ++ locks,
      "    " ++ update,
      "    " ++ apt ++ " install -y -qq " ++ pkg,
      "  )",
      "))"]

/-- The C sources in the workspace itself. -/
def topCs (info : WorkspaceInfo) : List String :=
  info.files.filter fun file ↦ !file.toList.contains '/' && endsWith file ".c"

def heuristicPlan (info : WorkspaceInfo) : Plan :=
  let workDir := "/root/project"
  if has info "Cargo.toml" then
    { buildCmd := [ensureTool "cargo" ++ " && cargo build --release"]
      runCmd := ["cargo run --release"]
      workDir }
  else
    match topCs info with
    | [cfile] =>
      { buildCmd := [ensureTool "gcc" ++ " && gcc " ++ cfile ++ " -o app"]
        runCmd := ["./app"]
        workDir }
    | _ =>
      if has info "Makefile" then
        { buildCmd := [ensureTool "make" ++ " && make"]
          runCmd := ["./app"]
          workDir }
      else
        match firstWithExt info ".py" with
        | some py =>
          { buildCmd := []
            runCmd := [ensureTool "python3" ++ " && python3 " ++ py]
            workDir }
        | none =>
          if has info "package.json" then
            { buildCmd := [ensureTool "npm" ++ " && npm install"]
              runCmd := ["node index.js"]
              workDir }
          else
            { buildCmd := []
              runCmd := ["ls -la"]
              workDir }

/-- A text does not end with what ends in another character. -/
theorem endsWith_eq_false {text suffix : String} {last other : Char}
    (hlast : text.toList.getLast? = some last) (hother : suffix.toList.getLast? = some other)
    (hne : last ≠ other) : endsWith text suffix = false := by
  rw [endsWith, Bool.eq_false_iff, ne_eq, List.isSuffixOf_iff_suffix]
  rintro ⟨front, htext⟩
  rw [← htext, List.getLast?_append, hother] at hlast
  exact hne (Option.some.inj hlast).symm

/-- Files whose names tell nothing are only listed. -/
theorem runCmd_heuristicPlan_of_plain {info : WorkspaceInfo}
    (hplain : ∀ file ∈ info.files, file.toList.getLast? = some 'a') :
    (heuristicPlan info).runCmd = ["ls -la"] := by
  have hhas : ∀ name other, name.toList.getLast? = some other →
      ("/" ++ name).toList.getLast? = some other → 'a' ≠ other → has info name = false := by
    intro name other hname hslash hne
    rw [has, List.any_eq_false]
    intro file hmem
    have hlast := hplain file hmem
    rw [endsWith_eq_false hlast hslash hne, Bool.or_false, beq_iff_eq]
    rintro rfl
    exact hne (Option.some.inj (hlast.symm.trans hname))
  have htop : topCs info = [] := by
    rw [topCs, List.filter_eq_nil_iff]
    intro file hmem
    rw [endsWith_eq_false (hplain file hmem) (by decide : _ = some 'c') (by decide), Bool.and_false]
    exact Bool.false_ne_true
  have hpython : firstWithExt info ".py" = none := by
    rw [firstWithExt, List.find?_eq_none]
    intro file hmem
    rw [endsWith_eq_false (hplain file hmem) (by decide : _ = some 'y') (by decide)]
    exact Bool.false_ne_true
  rw [heuristicPlan, hhas "Cargo.toml" 'l' (by decide) (by decide) (by decide), htop,
    hhas "Makefile" 'e' (by decide) (by decide) (by decide), hpython,
    hhas "package.json" 'n' (by decide) (by decide) (by decide)]
  rfl

end EdgeOrchestrator.Agent
