import RefGraph.Library

set_option autoImplicit false

namespace RefGraph.Library

def collectionMembers : List (String × String) :=
  [("iterator", "java.util.Iterator<E>"), ("stream", "java.util.stream.Stream<E>"),
   ("toArray", "java.lang.Object[]")]

def listMembers : List (String × String) :=
  collectionMembers ++
    [("get", "E"), ("remove", "E"), ("set", "E"), ("subList", "java.util.List<E>"),
     ("listIterator", "java.util.ListIterator<E>"), ("getFirst", "E"), ("getLast", "E")]

def queueMembers : List (String × String) :=
  collectionMembers ++
    [("peek", "E"), ("poll", "E"), ("element", "E"), ("remove", "E")]

def dequeMembers : List (String × String) :=
  queueMembers ++
    [("pop", "E"), ("peekFirst", "E"), ("peekLast", "E"), ("pollFirst", "E"), ("pollLast", "E"),
     ("getFirst", "E"), ("getLast", "E")]

def mapMembers : List (String × String) :=
  [("get", "V"), ("put", "V"), ("remove", "V"), ("getOrDefault", "V"), ("putIfAbsent", "V"),
   ("computeIfAbsent", "V"), ("computeIfPresent", "V"), ("compute", "V"), ("merge", "V"),
   ("replace", "V"), ("keySet", "java.util.Set<K>"), ("values", "java.util.Collection<V>"),
   ("entrySet", "java.util.Set<java.util.Map.Entry<K,V>>")]

def stringMembers : List (String × String) :=
  ["substring", "trim", "strip", "toLowerCase", "toUpperCase", "replace", "replaceAll", "concat",
   "format", "valueOf", "repeat", "intern"].map
    (·, "java.lang.String")

def standardTypes : List LibraryType :=
  [.ofTexts "java.lang.Object" "" []
     [("toString", "java.lang.String"), ("getClass", "java.lang.Class<?>")],
   .ofTexts "java.lang.String" ""
     ["java.lang.CharSequence", "java.lang.Comparable<java.lang.String>"] stringMembers,
   .ofTexts "java.lang.CharSequence" "" [] [("toString", "java.lang.String")],
   .ofTexts "java.lang.StringBuilder" "" ["java.lang.CharSequence"]
     [("append", "java.lang.StringBuilder"), ("insert", "java.lang.StringBuilder"),
      ("reverse", "java.lang.StringBuilder")],
   .ofTexts "java.lang.StringBuffer" "" ["java.lang.CharSequence"]
     [("append", "java.lang.StringBuffer")],
   .ofTexts "java.lang.Number" "" [] [],
   .ofTexts "java.lang.Integer" "" ["java.lang.Number", "java.lang.Comparable<java.lang.Integer>"]
     [("valueOf", "java.lang.Integer")],
   .ofTexts "java.lang.Long" "" ["java.lang.Number", "java.lang.Comparable<java.lang.Long>"]
     [("valueOf", "java.lang.Long")],
   .ofTexts "java.lang.Short" "" ["java.lang.Number"] [],
   .ofTexts "java.lang.Byte" "" ["java.lang.Number"] [],
   .ofTexts "java.lang.Double" "" ["java.lang.Number", "java.lang.Comparable<java.lang.Double>"]
     [("valueOf", "java.lang.Double")],
   .ofTexts "java.lang.Float" "" ["java.lang.Number"] [],
   .ofTexts "java.lang.Character" "" ["java.lang.Comparable<java.lang.Character>"] [],
   .ofTexts "java.lang.Boolean" "" ["java.lang.Comparable<java.lang.Boolean>"]
     [("valueOf", "java.lang.Boolean")],
   .ofTexts "java.lang.Void" "" [] [],
   .ofTexts "java.lang.Math" "" [] [],
   .ofTexts "java.lang.System" "" []
     [("out", "java.io.PrintStream"), ("err", "java.io.PrintStream"),
      ("in", "java.io.InputStream"), ("currentTimeMillis", "long"), ("nanoTime", "long"),
      ("getProperty", "java.lang.String"), ("getenv", "java.lang.String"),
      ("lineSeparator", "java.lang.String")],
   .ofTexts "java.lang.Thread" "" ["java.lang.Runnable"] [("currentThread", "java.lang.Thread")],
   .ofTexts "java.lang.ThreadLocal" "T" [] [("get", "T")],
   .ofTexts "java.lang.Runnable" "" [] [],
   .ofTexts "java.lang.Iterable" "T" [] [("iterator", "java.util.Iterator<T>")],
   .ofTexts "java.lang.Comparable" "T" [] [],
   .ofTexts "java.lang.AutoCloseable" "" [] [],
   .ofTexts "java.lang.Cloneable" "" [] [],
   .ofTexts "java.lang.Class" "T" []
     [("getName", "java.lang.String"), ("getSimpleName", "java.lang.String"), ("cast", "T")],
   .ofTexts "java.lang.Enum" "E" ["java.lang.Comparable<E>"] [("name", "java.lang.String")],
   .ofTexts "java.lang.Record" "" [] [],
   .ofTexts "java.lang.Throwable" "" []
     [("getMessage", "java.lang.String"), ("getCause", "java.lang.Throwable")],
   .ofTexts "java.lang.Exception" "" ["java.lang.Throwable"] [],
   .ofTexts "java.lang.Error" "" ["java.lang.Throwable"] [],
   .ofTexts "java.lang.RuntimeException" "" ["java.lang.Exception"] [],
   .ofTexts "java.lang.IllegalArgumentException" "" ["java.lang.RuntimeException"] [],
   .ofTexts "java.lang.IllegalStateException" "" ["java.lang.RuntimeException"] [],
   .ofTexts "java.lang.NullPointerException" "" ["java.lang.RuntimeException"] [],
   .ofTexts "java.lang.UnsupportedOperationException" "" ["java.lang.RuntimeException"] [],
   .ofTexts "java.lang.IndexOutOfBoundsException" "" ["java.lang.RuntimeException"] [],
   .ofTexts "java.lang.ClassCastException" "" ["java.lang.RuntimeException"] [],
   .ofTexts "java.lang.ArithmeticException" "" ["java.lang.RuntimeException"] [],
   .ofTexts "java.lang.InterruptedException" "" ["java.lang.Exception"] [],
   .ofTexts "java.lang.CloneNotSupportedException" "" ["java.lang.Exception"] [],
   .ofTexts "java.lang.AssertionError" "" ["java.lang.Error"] [],
   .ofTexts "java.lang.StackOverflowError" "" ["java.lang.Error"] [],
   .ofTexts "java.lang.OutOfMemoryError" "" ["java.lang.Error"] [],
   .ofTexts "java.lang.Override" "" [] [],
   .ofTexts "java.lang.Deprecated" "" [] [],
   .ofTexts "java.lang.SuppressWarnings" "" [] [],
   .ofTexts "java.lang.FunctionalInterface" "" [] [],
   .ofTexts "java.util.Collection" "E" ["java.lang.Iterable<E>"] collectionMembers,
   .ofTexts "java.util.List" "E" ["java.util.Collection<E>"] listMembers,
   .ofTexts "java.util.ArrayList" "E" ["java.util.List<E>"] listMembers,
   .ofTexts "java.util.LinkedList" "E" ["java.util.List<E>", "java.util.Deque<E>"]
     (listMembers ++ dequeMembers),
   .ofTexts "java.util.Vector" "E" ["java.util.List<E>"] listMembers,
   .ofTexts "java.util.Stack" "E" ["java.util.Vector<E>"]
     (listMembers ++ [("pop", "E"), ("peek", "E"), ("push", "E")]),
   .ofTexts "java.util.Set" "E" ["java.util.Collection<E>"] collectionMembers,
   .ofTexts "java.util.SortedSet" "E" ["java.util.Set<E>"] [("first", "E"), ("last", "E")],
   .ofTexts "java.util.HashSet" "E" ["java.util.Set<E>"] [],
   .ofTexts "java.util.LinkedHashSet" "E" ["java.util.HashSet<E>"] [],
   .ofTexts "java.util.TreeSet" "E" ["java.util.SortedSet<E>"] [],
   .ofTexts "java.util.Queue" "E" ["java.util.Collection<E>"] queueMembers,
   .ofTexts "java.util.Deque" "E" ["java.util.Queue<E>"] dequeMembers,
   .ofTexts "java.util.ArrayDeque" "E" ["java.util.Deque<E>"] [],
   .ofTexts "java.util.PriorityQueue" "E" ["java.util.Queue<E>"] [],
   .ofTexts "java.util.Iterator" "E" [] [("next", "E")],
   .ofTexts "java.util.ListIterator" "E" ["java.util.Iterator<E>"] [("previous", "E")],
   .ofTexts "java.util.Enumeration" "E" [] [("nextElement", "E")],
   .ofTexts "java.util.Map" "K,V" [] mapMembers,
   .ofTexts "java.util.Map.Entry" "K,V" [] [("getKey", "K"), ("getValue", "V"), ("setValue", "V")],
   .ofTexts "java.util.SortedMap" "K,V" ["java.util.Map<K,V>"]
     [("firstKey", "K"), ("lastKey", "K")],
   .ofTexts "java.util.NavigableMap" "K,V" ["java.util.SortedMap<K,V>"] [],
   .ofTexts "java.util.HashMap" "K,V" ["java.util.Map<K,V>"] [],
   .ofTexts "java.util.LinkedHashMap" "K,V" ["java.util.HashMap<K,V>"] [],
   .ofTexts "java.util.TreeMap" "K,V" ["java.util.NavigableMap<K,V>"] [],
   .ofTexts "java.util.Hashtable" "K,V" ["java.util.Map<K,V>"] [],
   .ofTexts "java.util.Properties" "" ["java.util.Hashtable<java.lang.Object,java.lang.Object>"]
     [("getProperty", "java.lang.String")],
   .ofTexts "java.util.Optional" "T" []
     [("get", "T"), ("orElse", "T"), ("orElseGet", "T"), ("orElseThrow", "T")],
   .ofTexts "java.util.Objects" "" [] [],
   .ofTexts "java.util.Collections" "" [] [],
   .ofTexts "java.util.Arrays" "" [] [],
   .ofTexts "java.util.Comparator" "T" [] [],
   .ofTexts "java.util.Random" "" [] [],
   .ofTexts "java.util.UUID" "" []
     [("randomUUID", "java.util.UUID"), ("toString", "java.lang.String")],
   .ofTexts "java.util.Date" "" [] [],
   .ofTexts "java.util.Locale" "" [] [],
   .ofTexts "java.util.Scanner" "" []
     [("nextLine", "java.lang.String"), ("next", "java.lang.String")],
   .ofTexts "java.util.NoSuchElementException" "" ["java.lang.RuntimeException"] [],
   .ofTexts "java.util.ConcurrentModificationException" "" ["java.lang.RuntimeException"] [],
   .ofTexts "java.util.function.Function" "T,R" [] [("apply", "R")],
   .ofTexts "java.util.function.BiFunction" "T,U,R" [] [("apply", "R")],
   .ofTexts "java.util.function.Supplier" "T" [] [("get", "T")],
   .ofTexts "java.util.function.Consumer" "T" [] [],
   .ofTexts "java.util.function.BiConsumer" "T,U" [] [],
   .ofTexts "java.util.function.Predicate" "T" [] [],
   .ofTexts "java.util.function.UnaryOperator" "T" ["java.util.function.Function<T,T>"] [],
   .ofTexts "java.util.function.BinaryOperator" "T" ["java.util.function.BiFunction<T,T,T>"] [],
   .ofTexts "java.util.stream.Stream" "T" []
     [("filter", "java.util.stream.Stream<T>"), ("sorted", "java.util.stream.Stream<T>"),
      ("distinct", "java.util.stream.Stream<T>"), ("limit", "java.util.stream.Stream<T>"),
      ("skip", "java.util.stream.Stream<T>"), ("findFirst", "java.util.Optional<T>"),
      ("findAny", "java.util.Optional<T>")],
   .ofTexts "java.util.stream.IntStream" "" [] [],
   .ofTexts "java.util.stream.Collectors" "" [] [],
   .ofTexts "java.util.concurrent.Callable" "V" [] [("call", "V")],
   .ofTexts "java.util.concurrent.Future" "V" [] [("get", "V")],
   .ofTexts "java.util.concurrent.CompletableFuture" "T" ["java.util.concurrent.Future<T>"]
     [("join", "T"), ("get", "T")],
   .ofTexts "java.util.concurrent.ConcurrentHashMap" "K,V" ["java.util.Map<K,V>"] [],
   .ofTexts "java.util.concurrent.ConcurrentMap" "K,V" ["java.util.Map<K,V>"] [],
   .ofTexts "java.util.concurrent.CopyOnWriteArrayList" "E" ["java.util.List<E>"] listMembers,
   .ofTexts "java.util.concurrent.BlockingQueue" "E" ["java.util.Queue<E>"]
     (queueMembers ++ [("take", "E")]),
   .ofTexts "java.util.concurrent.ExecutorService" "" [] [],
   .ofTexts "java.util.concurrent.Executors" "" []
     [("newFixedThreadPool", "java.util.concurrent.ExecutorService")],
   .ofTexts "java.util.concurrent.TimeUnit" "" [] [],
   .ofTexts "java.util.concurrent.atomic.AtomicInteger" "" ["java.lang.Number"] [],
   .ofTexts "java.util.concurrent.atomic.AtomicLong" "" ["java.lang.Number"] [],
   .ofTexts "java.util.concurrent.atomic.AtomicBoolean" "" [] [],
   .ofTexts "java.util.concurrent.atomic.AtomicReference" "V" []
     [("get", "V"), ("getAndSet", "V"), ("updateAndGet", "V")],
   .ofTexts "java.io.Serializable" "" [] [],
   .ofTexts "java.io.Closeable" "" ["java.lang.AutoCloseable"] [],
   .ofTexts "java.io.File" "" []
     [("getName", "java.lang.String"), ("getPath", "java.lang.String"),
      ("getParentFile", "java.io.File")],
   .ofTexts "java.io.IOException" "" ["java.lang.Exception"] [],
   .ofTexts "java.io.FileNotFoundException" "" ["java.io.IOException"] [],
   .ofTexts "java.io.UncheckedIOException" "" ["java.lang.RuntimeException"] [],
   .ofTexts "java.io.InputStream" "" ["java.io.Closeable"] [],
   .ofTexts "java.io.OutputStream" "" ["java.io.Closeable"] [],
   .ofTexts "java.io.PrintStream" "" ["java.io.OutputStream"] [],
   .ofTexts "java.io.Reader" "" ["java.io.Closeable"] [],
   .ofTexts "java.io.Writer" "" ["java.io.Closeable"] [],
   .ofTexts "java.io.BufferedReader" "" ["java.io.Reader"] [("readLine", "java.lang.String")],
   .ofTexts "java.io.InputStreamReader" "" ["java.io.Reader"] [],
   .ofTexts "java.nio.file.Path" "" []
     [("resolve", "java.nio.file.Path"), ("getParent", "java.nio.file.Path"),
      ("getFileName", "java.nio.file.Path"), ("toFile", "java.io.File")],
   .ofTexts "java.nio.file.Paths" "" [] [("get", "java.nio.file.Path")],
   .ofTexts "java.nio.file.Files" "" [] [],
   .ofTexts "java.time.Instant" "" [] [("now", "java.time.Instant")],
   .ofTexts "java.time.Duration" "" [] [],
   .ofTexts "java.time.LocalDate" "" [] [("now", "java.time.LocalDate")],
   .ofTexts "java.time.LocalDateTime" "" [] [("now", "java.time.LocalDateTime")]]

def standard : Library := NameTable.ofList standardTypes

end RefGraph.Library
