namespace BoxTree

/-!
# Build services

* `BuildService.isNamed` — whether variables are those that a build service sets.

This stands for the test of a library of its own, which a program can do without or replace. Nothing is
proved of it.
-/

namespace BuildService

/-- The variables that build services set, to whatever value. -/
def variableNames : List String :=
  ["CI_NAME", "GITHUB_ACTION", "GITLAB_CI", "NETLIFY", "TRAVIS", "CODEBUILD_SRC_DIR",
   "BUILDER_OUTPUT", "GITLAB_DEPLOYMENT", "NOW_GITHUB_DEPLOYMENT", "NOW_BUILDER",
   "BITBUCKET_DEPLOYMENT", "GERRIT_PROJECT", "SYSTEM_TEAMFOUNDATIONCOLLECTIONURI", "BITRISE_IO",
   "BUDDY_WORKSPACE_ID", "BUILDKITE", "CIRRUS_CI", "APPVEYOR", "CIRCLECI", "SEMAPHORE", "DRONE",
   "DSARI", "TDDIUM", "STRIDER", "TASKCLUSTER_ROOT_URL", "JENKINS_URL", "bamboo.buildKey",
   "GO_PIPELINE_NAME", "HUDSON_URL", "WERCKER", "MAGNUM", "NEVERCODE", "RENDER", "SAIL_CI",
   "SHIPPABLE"]

/-- The values of `CI` that say so. -/
def values : List String := ["true", "1", "woodpecker"]

/-- Where one build service keeps its interpreter. -/
def interpreter : String := "//heroku/node/bin/node"

/-- Whether variables, given by their values, are those of a build service. -/
def isNamed (get? : String → Option String) : Bool :=
  values.any (fun value => get? "CI" = some value) ||
  (match get? "NODE" with
    | some path => interpreter.toList.isSuffixOf path.toList
    | none => false) ||
  variableNames.any fun name => (get? name).isSome

/-- All variables that matter for this. -/
def consulted : List String := ["CI", "NODE"] ++ variableNames

end BuildService

end BoxTree
