import HireAndTech.Salaries.Parser

/-!
# Skills

The module {lit}`app.jobs.parsing.skills`: a table of skills with their aliases, which are looked
up in lists and in texts.

Main results:

- Definition {lit}`extractSkillsFromText`: the skills that a text names.
- Definition {lit}`mergeSkills`: the skills of a list, and after them those of a text.
-/

namespace HireAndTech
namespace Extraction

open Text Catalogue Salaries

/-- `CANONICAL_SKILLS`. -/
def canonicalSkills : List (String × String) :=
  [("python", "Python"), ("javascript", "JavaScript"), ("typescript", "TypeScript"),
    ("java", "Java"), ("c++", "C++"), ("cpp", "C++"), ("c#", "C#"), ("csharp", "C#"),
    ("golang", "Go"), ("go", "Go"), ("rust", "Rust"), ("ruby", "Ruby"), ("php", "PHP"),
    ("scala", "Scala"), ("kotlin", "Kotlin"), ("swift", "Swift"), ("dart", "Dart"), ("r", "R"),
    ("sql", "SQL"), ("nosql", "NoSQL"), ("html", "HTML"), ("html5", "HTML"), ("css", "CSS"),
    ("css3", "CSS"), ("sass", "Sass"), ("bash", "Bash"), ("shell", "Shell"),
    ("powershell", "PowerShell"), ("react", "React"), ("react.js", "React"),
    ("reactjs", "React"), ("next.js", "Next.js"), ("nextjs", "Next.js"), ("vue", "Vue.js"),
    ("vue.js", "Vue.js"), ("angular", "Angular"), ("node", "Node.js"), ("node.js", "Node.js"),
    ("nodejs", "Node.js"), ("express", "Express.js"), ("express.js", "Express.js"),
    ("fastapi", "FastAPI"), ("flask", "Flask"), ("django", "Django"), ("spring", "Spring"),
    ("spring boot", "Spring Boot"), ("springboot", "Spring Boot"), (".net", ".NET"),
    ("dotnet", ".NET"), ("asp.net", "ASP.NET"), ("rails", "Ruby on Rails"),
    ("ruby on rails", "Ruby on Rails"), ("graphql", "GraphQL"), ("rest", "REST API"),
    ("restful", "REST API"), ("grpc", "gRPC"), ("postgresql", "PostgreSQL"),
    ("postgres", "PostgreSQL"), ("mysql", "MySQL"), ("sqlite", "SQLite"), ("mongodb", "MongoDB"),
    ("redis", "Redis"), ("elasticsearch", "Elasticsearch"), ("cassandra", "Cassandra"),
    ("dynamodb", "DynamoDB"), ("snowflake", "Snowflake"), ("bigquery", "BigQuery"),
    ("aws", "AWS"), ("amazon web services", "AWS"), ("azure", "Azure"), ("gcp", "GCP"),
    ("google cloud", "GCP"), ("docker", "Docker"), ("kubernetes", "Kubernetes"),
    ("k8s", "Kubernetes"), ("terraform", "Terraform"), ("ansible", "Ansible"),
    ("jenkins", "Jenkins"), ("github actions", "GitHub Actions"), ("gitlab ci", "GitLab CI"),
    ("circleci", "CircleCI"), ("linux", "Linux"), ("unix", "Unix"), ("git", "Git"),
    ("microservices", "Microservices"), ("kafka", "Kafka"), ("rabbitmq", "RabbitMQ"),
    ("sqs", "AWS SQS"), ("machine learning", "Machine Learning"),
    ("deep learning", "Deep Learning"), ("pytorch", "PyTorch"), ("tensorflow", "TensorFlow"),
    ("pandas", "Pandas"), ("numpy", "NumPy"), ("scikit-learn", "Scikit-Learn"),
    ("airflow", "Apache Airflow"), ("spark", "Apache Spark"), ("pytest", "PyTest"),
    ("junit", "JUnit"), ("jest", "Jest"), ("cypress", "Cypress"), ("playwright", "Playwright"),
    ("selenium", "Selenium")]

/-- The skills that are found by their own patterns, with the text of the pattern. -/
def specialSkills : List (String × String) :=
  [("c++", "C++"), ("c#", "C#"), (".net", ".NET"), ("go", "Go"), ("r", "R")]

variable (u : Unicode) (title : List Char → List Char)

/-- `casefold` of a skill. -/
def fold (skill : String) : List Char :=
  u.casefold skill.toList

/-- `normalize_skill`, for a given `str.title`. -/
def normalizeSkill (skill : String) : Option String :=
  let cleaned := joinSplit skill
  if cleaned = "" then none
  else
    match canonicalSkills.lookup (String.ofList (fold u cleaned)) with
    | some name => some name
    | none =>
        if 2 ≤ cleaned.length ∧ cleaned.length ≤ 40 ∧ cleaned.toList.any Char.isAlpha then
          some (String.ofList (title cleaned.toList))
        else none

/-- A skill at the end of a list, unless the list has it in some case. -/
def addSkill (skills : List String) (skill : String) : List String :=
  if skills.any fun known => fold u known = fold u skill then skills else skills ++ [skill]

/-- `[,;|/]`. -/
def isBundling (c : Char) : Bool :=
  c ∈ [',', ';', '|', '/']

/-- `extract_skills_from_list`. -/
def extractSkillsFromList (rawSkills : List String) : List String :=
  let parts := rawSkills.flatMap fun raw =>
    if raw = "" then [] else (raw.toList.splitOnP isBundling).map String.ofList
  (parts.filterMap (normalizeSkill u title)).foldl (addSkill u) []

/-- The characters before a special skill. -/
def opensSkill (c : Char) : Bool :=
  isSpace c || c ∈ ['.', ',', ';', '/', '(']

/-- The characters after a special skill. -/
def closesSkill (c : Char) : Bool :=
  isSpace c || c ∈ ['.', ',', ';', '/', ')', ':']

/-- `_SPECIAL_SKILL_PATTERNS`: a word stands by itself in a text. -/
def standsAlone (word : String) (before : Option Char) : List Char → Bool
  | [] => false
  | c :: rest =>
      before.all opensSkill &&
          ((folded word).ends ⟨before, c :: rest⟩).any
            (fun stop => stop.rest.head?.all closesSkill) ||
        standsAlone word (some c) rest

/-- `(?:\b|\s)alias(?:\b|\s)`. -/
def aliasPattern (word : String) : Regex :=
  let border := .alt (.boundary u.isWord) (.satisfy isSpace)
  .seq border (.seq (.text word) border)

/-- `extract_skills_from_text`. -/
def extractSkillsFromText (text : Option String) : List String :=
  let text := (text.getD "").toList
  if text = [] then []
  else
    let special := (specialSkills.filter fun skill => standsAlone skill.1 none text).map (·.2)
    let lowered := ' ' :: (u.casefold text ++ [' '])
    let plain := (canonicalSkills.filter fun skill =>
      skill.1 ∉ specialSkills.map (·.1) && (aliasPattern u skill.1).search lowered).map (·.2)
    (special ++ plain).foldl (addSkill u) []

/-- `merge_skills`. -/
def mergeSkills (explicit text : List String) : List String :=
  (extractSkillsFromList u title explicit ++
    text.map fun skill => (normalizeSkill u title skill).getD skill).foldl (addSkill u) []

end Extraction
end HireAndTech
